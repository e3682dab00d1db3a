import Mathlib.Data.Nat.Basic

/-!
# Limits

The plan constants of `policy/limits.py` that the modelled code reads.
Durations are in seconds and sizes in bytes.  The names are the names of
the source.
-/

namespace MuseAgentSocial.Policy

/-- `MAX_ENVELOPE_BYTES`, which the transports import as `OBJECT_MAX_BYTES`. -/
def OBJECT_MAX_BYTES : Nat := 262144

/-- At most this many objects are delivered by one fetch stream. -/
def FETCH_MAX_OBJECTS : Nat := 5000

/-- At most this many bytes are delivered by one fetch stream. -/
def FETCH_MAX_AGGREGATE_BYTES : Nat := 256 * 1024 * 1024

/-- How late a scheduled event without `expires_at` may still be released. -/
def LATE_WINDOW_SECONDS : Nat := 24 * 3600

/-- An event older than this is not accepted. -/
def ACCEPT_WINDOW_DAYS : Nat := 7

/-- How far in the future the creation time of an event may lie. -/
def FUTURE_TOLERANCE_SECONDS : Nat := 300

/-- An object of an unknown epoch is given up after this many sightings. -/
def MAX_UNKNOWN_EPOCH_SIGHTINGS : Nat := 100

/-- How long events of a retired peer identity are accepted after its rotation. -/
def PRIOR_IDENTITY_GRACE_SECONDS : Nat := 72 * 3600

/-- One sender holds at most this many active reactions on one target. -/
def MAX_ACTIVE_REACTIONS_PER_SENDER_TARGET : Nat := 8

/-- How far a sequence number may jump ahead, and how many gaps one event
records. -/
def MAX_SEQ_GAP : Nat := 100000

/-- After this many transient failures in a row an object is given up. -/
def MAX_CONSECUTIVE_RECEIVE_FAILURES : Nat := 10

/-- At most this many events are accepted per relationship in 24 hours. -/
def INGRESS_MAX_EVENTS_PER_DAY : Nat := 10000

end MuseAgentSocial.Policy
