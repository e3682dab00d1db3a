import MuseAgentSocial.Lib.Durable
import MuseAgentSocial.Teardown.State

/-!
# The relay metadata and the revocation hooks

`_discover_relay_refs` and `_prune_relay_json` of `teardown.py`, and the hooks
`_RevokeHooks` that `mas revoke` hands to a teardown.
-/

namespace MuseAgentSocial.Teardown

open Relational Durable

/-! ## Texts -/

/-- The rest of a text after a leading part. -/
def stripPrefix (lead s : String) : Option String :=
  if lead.toList <+: s.toList then some (String.ofList (s.toList.drop lead.toList.length)) else none

theorem stripPrefix_append (lead s : String) : stripPrefix lead (lead ++ s) = some s := by
  unfold stripPrefix
  rw [if_pos (by simp [String.toList_append])]
  simp [String.toList_append]

/-- The text without a trailing part. -/
def dropSuffix (tail s : String) : String :=
  if tail.toList <:+ s.toList then
    String.ofList (s.toList.take (s.toList.length - tail.toList.length))
  else s

/-- `a or b or ""`. -/
def firstText : List (Option String) → String
  | [] => ""
  | some s :: rest => if s = "" then firstText rest else s
  | none :: rest => firstText rest

/-- `owner/name`, with one slash and a part on each of its sides. -/
def isOwnerSlashName (s : String) : Bool :=
  let owner := s.toList.takeWhile (· ≠ '/')
  let name := (s.toList.dropWhile (· ≠ '/')).drop 1
  !owner.isEmpty && !name.isEmpty && !name.contains '/'

/-- `_owner_slash_name`: the repository of a GitHub URL, or the empty text. -/
def ownerSlashName (repo_url : String) : String :=
  match (stripPrefix "https://github.com/" repo_url).orElse
      (fun _ => stripPrefix "git@github.com:" repo_url) with
  | none => ""
  | some rest => if isOwnerSlashName (dropSuffix ".git" rest) then dropSuffix ".git" rest else ""

/-- `DEPLOY_KEY_TITLE_PREFIX`. -/
def DEPLOY_KEY_TITLE_PREFIX : String := "mas-pair-"

/-- `deploy_key_title`. -/
def deployKeyTitle (rid : RelationshipId) : String := DEPLOY_KEY_TITLE_PREFIX ++ rid

/-! ## Discovery -/

/-- `key_claims`: the deploy keys of `deploy_key_registry` and their
relationships. -/
def keyClaims (rows : List Row) : List (String × RelationshipId) :=
  (select .deploy_key_registry rows).filterMap (fun r =>
    match textOf r .deploy_public_key, textOf r .relationship_id with
    | some key, some rid => some (key, rid)
    | _, _ => none)

/-- `_deploy_key_claim`: the relationship that an entry belongs to. -/
def deployKeyClaim (f : KeyFields) (claims : List (String × RelationshipId)) :
    Option RelationshipId :=
  match stripPrefix DEPLOY_KEY_TITLE_PREFIX (firstText [f.title, f.label]) with
  | some rid => some rid
  | none => if firstText [f.key] = "" then none else claims.lookup (firstText [f.key])

/-- The relationships whose `relay_config` row references the repository. -/
def repoClaimants (rows : List Row) (repo : String) : List RelationshipId :=
  (select .relay_config rows).filterMap (fun r =>
    match textOf r .repo_url, textOf r .relationship_id with
    | some url, some rid => if ownerSlashName url = repo then some rid else none
    | _, _ => none)

/-- The repository of the relationship's own `relay_config` row. -/
def ownRepo (rows : List Row) (rid : RelationshipId) : String :=
  match (select .relay_config rows).find? (fun r => r.is .relationship_id (.text rid)) with
  | some r => ownerSlashName ((textOf r .repo_url).getD "")
  | none => ""

/-- `single_relationship`. -/
def singleRelationship (rows : List Row) : Bool := (select .relationships rows).length = 1

/-- The `DeployKeyRef` of an entry. -/
def keyRef (rows : List Row) (rid : RelationshipId) (f : KeyFields) : DeployKeyRef :=
  { repo := if firstText [f.repo] = "" then ownRepo rows rid else firstText [f.repo],
    label := firstText [f.title, f.label], key_id := firstText [f.key_id, f.id] }

/-- The key to revoke for an entry, absent when the entry is kept. -/
def keyToRevoke (rows : List Row) (rid : RelationshipId) : KeyEntry → Option DeployKeyRef
  | .other _ => none
  | .dict f =>
    match deployKeyClaim f (keyClaims rows) with
    | some claim => if claim = rid then some (keyRef rows rid f) else none
    | none => if singleRelationship rows then some (keyRef rows rid f) else none

/-- The repository to delete for an entry, absent when the entry is kept. -/
def repoToDelete (rows : List Row) (rid : RelationshipId) (e : RepoEntry) : Option RelayRef :=
  let ref : Option RelayRef :=
    match e with
    | .name repo => some ⟨repo, ""⟩
    | .dict repo transport => some ⟨firstText [repo], firstText [transport]⟩
    | .other _ => none
  match ref with
  | none => none
  | some ref =>
    if ref.repo = "" then none
    else
      let claimants := repoClaimants rows ref.repo
      if claimants = [] then (if singleRelationship rows then some ref else none)
      else if claimants.all (· = rid) then some ref
      else none

/-- `_discover_relay_refs`. -/
def discoverRelayRefs (w : World) (rid : RelationshipId) : RelayRefs :=
  match w.relay with
  | none => {}
  | some (.unparseable _) => { relay_json_present := true }
  | some (.doc d) =>
    { keys_to_revoke := d.deploy_keys.filterMap (keyToRevoke w.rows rid),
      repos_to_delete := d.repos.filterMap (repoToDelete w.rows rid),
      keep_deploy_keys := d.deploy_keys.filter (fun e => (keyToRevoke w.rows rid e).isNone),
      keep_repos := d.repos.filter (fun e => (repoToDelete w.rows rid e).isNone),
      relay_json_present := true, relay_json_parseable := true }

/-- `_prune_relay_json`: the new content of `relay.json`. -/
def pruneRelayJson (refs : RelayRefs) (relay : Option RelayFile) : Option RelayFile :=
  if !refs.relay_json_present then relay
  else if !refs.relay_json_parseable then relay
  else if refs.keep_deploy_keys = [] && refs.keep_repos = [] then none
  else some (.doc ⟨refs.keep_deploy_keys, refs.keep_repos⟩)

/-! ## Hooks -/

/-- How a teardown fails. -/
inductive Failure where
  /-- `TeardownError`, with its code and detail. -/
  | teardown (code detail : String)
  /-- A foreign key blocks a delete. -/
  | integrity
  /-- An exception that leaves a hook. -/
  | hook
  /-- `VACUUM` fails. -/
  | vacuum
  deriving DecidableEq, Repr

/-- `TeardownHooks`. -/
structure Hooks where
  revoke_deploy_key : Option (DeployKeyRef → Program World Failure String) := none
  delete_relay_repo : Option (RelayRef → Program World Failure String) := none

/-- `_RevokeHooks`. -/
structure RevokeHooks where
  token : Option String
  delete_remote : Bool
  relay_doc : Option RelayDoc

/-- Record a call of a hook. -/
def World.called (w : World) (c : Call) : World := { w with calls := w.calls ++ [c] }

/-- The first repository of the document, as `revoke_deploy_key` reads it. -/
def RevokeHooks.firstRepo (h : RevokeHooks) : String :=
  match h.relay_doc with
  | some ⟨_, .name repo :: _⟩ => repo
  | some ⟨_, .dict repo _ :: _⟩ => firstText [repo]
  | _ => ""

/-- The text of a status: the deletion is confirmed or left to the operator. -/
def statusText (done : String) : Answer → Option String
  | .status code => some (if code = 204 then done else "manual: HTTP " ++ toString code)
  | .httpError code =>
    some (if code = 404 then done else "manual: api_error: GitHub API " ++ toString code)
  | .unreachable => none

/-- `_api` for one call, recorded with the answer, and the text made from it. -/
def RevokeHooks.request (h : RevokeHooks) (provider : Nat → Answer) (call : Option Answer → Call)
    (done : String) : Program World Failure String :=
  if firstText [h.token] = "" then do
    .write (·.called (call none))
    .ret "manual: no_token: GitHub token required (--token or MAS_GITHUB_TOKEN)"
  else do
    let answer ← .read (fun w : World => provider w.calls.length)
    .write (·.called (call (some answer)))
    match statusText done answer with
    | some text => .ret text
    | none => .raise .hook

/-- `_RevokeHooks.revoke_deploy_key`. -/
def RevokeHooks.revokeDeployKey (h : RevokeHooks) (provider : Nat → Answer) (ref : DeployKeyRef) :
    Program World Failure String :=
  let repo := if ref.repo = "" then h.firstRepo else ref.repo
  if repo = "" then do
    .write (·.called (.revokeDeployKey ref none))
    .ret "manual: no relay repo recorded"
  else if ref.key_id = "" then do
    .write (·.called (.revokeDeployKey ref none))
    .ret "manual: no deploy key id recorded"
  else h.request provider (.revokeDeployKey { ref with repo := repo }) "revoked"

/-- `_RevokeHooks.delete_relay_repo`. -/
def RevokeHooks.deleteRelayRepo (h : RevokeHooks) (provider : Nat → Answer) (ref : RelayRef) :
    Program World Failure String :=
  if !h.delete_remote then do
    .write (·.called (.deleteRelayRepo ref none))
    .ret "manual: pass --delete-remote to delete the relay repository"
  else h.request provider (.deleteRelayRepo ref) "deleted"

/-- The hooks that `mas revoke` hands over. -/
def RevokeHooks.hooks (h : RevokeHooks) (provider : Nat → Answer) : Hooks where
  revoke_deploy_key := some (h.revokeDeployKey provider)
  delete_relay_repo := some (h.deleteRelayRepo provider)

end MuseAgentSocial.Teardown
