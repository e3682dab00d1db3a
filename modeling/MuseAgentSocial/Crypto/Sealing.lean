import Mathlib.Data.List.Basic

/-!
# Sealed envelopes

A symbolic model of `crypto/sealing.py`.  Keys are terms: the public half of
a private key is a constructor applied to it, and so is a fingerprint, so two
of them are equal only if they come from the same key.  An envelope carries
one wrap of its content key for each recipient key, and a wrap opens with the
private half of its agreement key and with nothing else.

The wraps and the body of an `Envelope` are as `seal` made them.  Who signed
it is a field, since the relay may hold envelopes of anybody.
-/

namespace MuseAgentSocial.Crypto

/-- An identity, the `did:key` of an Ed25519 key. -/
abbrev IdentityId := Nat

/-- An X25519 private key. -/
structure PrivateKey where
  seed : Nat
  deriving DecidableEq, Repr

/-- An X25519 public key in its multibase form. -/
structure AgreementKey where
  half : PrivateKey
  deriving DecidableEq, Repr

/-- `priv.public_key()`. -/
def PrivateKey.publicKey (priv : PrivateKey) : AgreementKey := ⟨priv⟩

/-- The SHA-256 digest of a public key. -/
structure Fingerprint where
  digest : AgreementKey
  deriving DecidableEq, Repr

/-- `agreement_fingerprint`. -/
def agreementFingerprint (key : AgreementKey) : Fingerprint := ⟨key⟩

@[simp] theorem publicKey_inj {p q : PrivateKey} : p.publicKey = q.publicKey ↔ p = q := by
  simp [PrivateKey.publicKey]

@[simp] theorem agreementFingerprint_inj {k l : AgreementKey} :
    agreementFingerprint k = agreementFingerprint l ↔ k = l := by
  simp [agreementFingerprint]

/-- An entry of `recipients`: the content key wrapped to one agreement key. -/
structure Wrap where
  recipient : IdentityId
  agreement_key : AgreementKey
  deriving DecidableEq, Repr

/-- A sealed envelope with the header fields that the receive path reads. -/
structure Envelope (α : Type) where
  event_id : Nat
  sender : IdentityId
  created_at : Nat
  key_epoch : Nat
  recipients : List Wrap
  signer : IdentityId
  payload : α
  deriving DecidableEq, Repr

/-- The codes of `SealingError` that a well-formed envelope can raise. -/
inductive SealingError where
  | bad_signature
  | unknown_recipient
  | wrong_aad
  deriving DecidableEq, Repr

/-- `unseal_envelope`. -/
def unsealEnvelope {α : Type} (env : Envelope α) (relationship_priv : PrivateKey)
    (expected_recipient_id : IdentityId) : Except SealingError α :=
  if env.signer ≠ env.sender then
    .error .bad_signature
  else
    let candidates := env.recipients.filter (·.recipient = expected_recipient_id)
    if candidates.isEmpty then
      .error .unknown_recipient
    else if candidates.any (·.agreement_key = relationship_priv.publicKey) then
      .ok env.payload
    else
      -- No wrap decrypts under this key, and each embeds another agreement key.
      .error .wrong_aad

/-- `env` has a wrap of `id` that `priv` opens. -/
def Envelope.WrappedTo {α : Type} (env : Envelope α) (priv : PrivateKey) (id : IdentityId) :
    Prop :=
  ⟨id, priv.publicKey⟩ ∈ env.recipients

instance {α : Type} (env : Envelope α) (priv : PrivateKey) (id : IdentityId) :
    Decidable (env.WrappedTo priv id) :=
  inferInstanceAs (Decidable (_ ∈ _))

theorem unsealEnvelope_ok_iff {α : Type} {env : Envelope α} {priv : PrivateKey}
    {id : IdentityId} {x : α} :
    unsealEnvelope env priv id = .ok x ↔
      env.signer = env.sender ∧ env.WrappedTo priv id ∧ env.payload = x := by
  have hany : (env.recipients.filter (·.recipient = id)).any
      (·.agreement_key = priv.publicKey) = true ↔ env.WrappedTo priv id := by
    simp only [List.any_eq_true, List.mem_filter, decide_eq_true_eq, Envelope.WrappedTo]
    constructor
    · rintro ⟨w, ⟨hw, rfl⟩, hkey⟩
      rw [← hkey]
      exact hw
    · intro hw
      exact ⟨_, ⟨hw, rfl⟩, rfl⟩
  unfold unsealEnvelope
  dsimp only
  split_ifs with hsigner hempty hopen
  · simp [hsigner]
  · have hnot : ¬ env.WrappedTo priv id := by
      rw [← hany, List.isEmpty_iff.mp hempty]
      simp
    simp [hnot]
  · rw [not_not] at hsigner
    simp [hsigner, hany.mp hopen]
  · simp [mt hany.mpr hopen]

end MuseAgentSocial.Crypto
