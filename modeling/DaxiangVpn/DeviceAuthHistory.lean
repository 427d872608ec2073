import DaxiangVpn.DeviceAuthIdentities
import DaxiangVpn.DeviceAuthRotation

/-!
# Histories of the authority

Each credential goes back to an activation, what became of a request is final, and
the latest command of a device is never lost.
-/

namespace DaxiangVpn.DeviceAuthHistory

open RelationTable DeviceAuthTables DeviceAuthProcess DeviceAuthWorld DeviceAuthChanges
  DeviceAuthGrowth List
open DeviceAuthInvariant DeviceAuthRegistry DeviceAuthMoves DeviceAuthIdentities DeviceAuthRotation
open TransitionRun Relation

/-- The credential was created when an activation of its device was consumed. -/
def Activated (g : Registry) (c : CredentialRow) : Prop :=
  ∃ x ∈ g.receipts, x.credentialId = c.credentialId ∧ ∃ act ∈ g.activations,
    x.principalId = "activation:" ++ act.activationId ∧ act.consumedDevice = some c.deviceId

section

variable {s : Store} {sc : Scope} {a : Authority} {g : Registry} {c : CredentialRow}
  (hinv : RegInv s sc a g)
include hinv

theorem replaced_device {c' : CredentialRow} (hc : c ∈ g.credentials) (h : Replaced g c c') :
    c.deviceId = c'.deviceId := by
  obtain ⟨n, hn, hid, hdev⟩ := (hinv.credentials c hc).next _ h.2
  rw [← Table.eq_of_key hn h.1 hid, hdev]

theorem activated_or_replaced (hc : c ∈ g.credentials) :
    Activated g c ∨ ∃ old ∈ g.credentials, Replaced g old c := by
  have hid : c.credentialId ∈ g.receipts.rows.map CredentialReceiptRow.credentialId :=
    hinv.paired ▸ mem_map_of_mem hc
  obtain ⟨x, hx, hxid⟩ := mem_map.mp hid
  obtain ⟨c', hc', hcid, -, hcreated⟩ := (hinv.receipts x hx).credential
  cases Table.eq_of_key hc' hc (hcid.trans hxid)
  rcases hcreated with ⟨-, hact⟩ | ⟨-, old, hold, -, hrep, -⟩
  · exact .inl ⟨x, hx, hxid, hact⟩
  · exact .inr ⟨old, hold, hc, hrep⟩

theorem credential_ends (hc : c ∈ g.credentials) : Ends g.credentials c.credentialId := by
  obtain ⟨-, last, hlast, hreach, hnone⟩ := replaced_ends hinv hc
  induction hreach using ReflTransGen.head_induction_on with
  | refl => exact ends_of_next hlast fun next hnext => by cases hnone.symm.trans hnext
  | head hrep _ ih =>
    refine ends_of_next hc fun next hnext => ?_
    cases hrep.2.symm.trans hnext
    exact ih hrep.1

end

/-! ## Every run -/

/-- The first credential replaced the second. -/
def Replaces (g : Registry) (c old : CredentialRow) : Prop := old ∈ g.credentials ∧ Replaced g old c

/-- The second credential replaced the first, which is one of the same device. -/
def Rotated (g : Registry) (c c' : CredentialRow) : Prop :=
  c ∈ g.credentials ∧ Replaced g c c' ∧ c.deviceId = c'.deviceId

/-- Every credential goes back, through credentials of its device, to an activated one. -/
def Rooted (g : Registry) : Prop := ∀ c ∈ g.credentials, ∃ first ∈ g.credentials,
  ReflTransGen (Rotated g) first c ∧ first.deviceId = c.deviceId ∧ Activated g first

/-- The rotation check of `restoreValidate` accepts the credentials in every order of the rows. -/
def RotationAccepted (t : Credentials) : Prop := ∀ order : List CredentialRow, order.Perm t.rows →
  ∀ fuel, t.rows.length < fuel → ∃ marked, colorCredentials t fuel order = some (.ok (), marked)

/-- What became of a request in the first database holds in the second one. -/
structure Final (db db' : DB) : Prop where
  accepted : ∀ q ∈ db.requests, q ∈ db'.requests ∧ ∀ x ∈ db'.cancellations, x.key ≠ q.key
  cancelled : ∀ x ∈ db.cancellations, x ∈ db'.cancellations ∧ ∀ q ∈ db'.requests, q.key ≠ x.key
  created : ∀ x ∈ db.receipts, x ∈ db'.receipts ∧ ∃ c ∈ db'.credentials,
    c.credentialId = x.credentialId ∧ c.publicKey = x.publicKey

/-- The latest command of each device explains its state, key and address, and its job is open or
verified. -/
def LatestKept (db : DB) : Prop := ∀ r ∈ db.devices, 0 < r.generation → ∃ o ∈ db.operations,
  o.deviceId = r.deviceId ∧ o.generation = r.generation ∧ Latest db.toAuthority r o ∧
    ∃ x ∈ db.outbox, x.operationId = o.operationId ∧ x.state ≠ .superseded ∧
    (x.state = .done → x.verifiedAt ≠ none)

section

variable (s : Store) (runtime : List Peer) (time : ℤ) (inputs : List Input)

/-- The world after a run. -/
abbrev after : World := run (step s) (init s runtime time) inputs

theorem after_inv : WorldInv s .all (after s runtime time inputs) :=
  run_worldInv (init_worldInv s .all runtime time) (along_all s _ inputs)

/-- In every reachable database each credential goes back to an activation. -/
theorem after_rooted : Rooted (after s runtime time inputs).db.toRegistry := by
  have hinv := (after_inv s runtime time inputs).db.registry
  generalize (after s runtime time inputs).db.toRegistry = g at hinv ⊢
  -- Read backwards, since a credential is stored after the one that it replaces.
  have hlater : g.credentials.rows.reverse.Pairwise fun c c' => ¬ Replaces g c' c :=
    pairwise_reverse.mpr (hinv.ordered.imp fun hne hback => hne hback.2.2)
  intro c hc
  have hchain : ∀ c', ReflTransGen (Replaces g) c c' →
      ReflTransGen (Rotated g) c' c ∧ c'.deviceId = c.deviceId := by
    intro c' hback
    induction hback with
    | refl => exact ⟨.refl, rfl⟩
    | tail _ hb ih =>
      have hdevice := replaced_device hinv hb.1 hb.2
      exact ⟨.head ⟨hb.1, hb.2, hdevice⟩ ih.1, hdevice.trans ih.2⟩
  obtain ⟨-, first, hfirst, hback, hend⟩ := ends_of_later (fun _ _ _ hb => mem_reverse.mpr hb.1)
    (fun x _ hb => hinv.irreflexive x hb.1 hb.2.2) hlater c (mem_reverse.mpr hc)
  have hmem := mem_reverse.mp hfirst
  refine ⟨first, hmem, (hchain first hback).1, (hchain first hback).2, ?_⟩
  exact (activated_or_replaced hinv hmem).resolve_right fun ⟨old, hold⟩ => hend old hold

/-- The rotation check accepts every reachable database. -/
theorem after_rotationAccepted : RotationAccepted (after s runtime time inputs).db.credentials := by
  intro order horder fuel hfuel
  obtain ⟨result, marked, heq, -, -, hresult⟩ : Exact _ (colorCredentials _ fuel order) :=
    colorFrom_exact hfuel (fun r hr => horder.mem_iff.mp hr)
      ⟨by simp, by simp, nodup_nil, by simp, by simp⟩
      fun r hr => .inl (horder.mem_iff.mpr hr)
  rcases hresult with ⟨-, id, hcycle⟩ | ⟨rfl, -⟩
  · obtain ⟨next, ⟨r, hr, rfl, -⟩, -⟩ := TransGen.head'_iff.mp hcycle
    exact absurd hcycle (credential_ends (after_inv s runtime time inputs).db.registry hr).acyclic
  · exact ⟨marked, heq⟩

/-- Whatever happens later, requests, cancellations and receipts stand as they are. -/
theorem after_final (later : List Input) :
    Final (after s runtime time inputs).db
      (run (step s) (after s runtime time inputs) later).db := by
  have hw := after_inv s runtime time inputs
  have hinv := (run_worldInv hw (along_all s _ later)).db.registry
  have hg := (run_grows hw (along_all s _ later)).registry
  refine ⟨fun q hq => ?_, fun x hx => ?_, fun x hx => ?_⟩
  · have hq' := hg.requests q hq
    exact ⟨hq', fun x hx hkey => (hinv.cancellations x hx).free q hq' hkey.symm⟩
  · have hx' := hg.cancellations x hx
    exact ⟨hx', (hinv.cancellations x hx').free⟩
  · have hx' := hg.receipts x hx
    obtain ⟨c, hc, hid, hkey, -⟩ := (hinv.receipts x hx').credential
    exact ⟨hx', c, hc, hid, hkey⟩

/-- In every reachable database the latest commands are kept. -/
theorem after_latestKept : LatestKept (after s runtime time inputs).db := by
  intro r hr hpos
  obtain ⟨hcore, hjobs⟩ := (after_inv s runtime time inputs).db.authority
  obtain ⟨o, ho, hdev, hgen, hlatest⟩ := (hcore.devices r hr).history _ hpos le_rfl
  obtain ⟨x, hx, hid⟩ := hjobs.jobs o ho
  refine ⟨o, ho, hdev, hgen, hlatest rfl, x, hx, hid, ?_, ?_⟩
  · exact latest_not_superseded hjobs ho hr hdev.symm hgen hx hid
  · exact fun hdone => ((hjobs.outbox x hx).finished hdone).2

end

end DaxiangVpn.DeviceAuthHistory
