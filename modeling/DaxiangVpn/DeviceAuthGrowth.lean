import DaxiangVpn.DeviceAuthFrames

/-!
# How rows may evolve

Retained rows never disappear, and their columns only move in one direction:
generations and fences grow, revocations and consumptions are final, and a
device that has left the active state does not return to it. Together these
preorders of rows order the databases of one store.
-/

namespace DaxiangVpn.DeviceAuthGrowth

open RelationTable DeviceAuthTables

/-- A nullable column that is never rewritten once it is set. -/
def Sticky {α : Type} (old new : Option α) : Prop := old = none ∨ new = old

theorem Sticky.trans {α : Type} {a b c : Option α} (h : Sticky a b) (h' : Sticky b c) :
    Sticky a c := by
  rcases h with h | h
  · exact .inl h
  · subst h
    exact h'

/-! ## Rows of the authority -/

structure DeviceGrows (r r' : DeviceRow) : Prop where
  same : r'.deviceId = r.deviceId ∧ r'.ownerId = r.ownerId ∧ r'.validUntil = r.validUntil
  generation : r.generation ≤ r'.generation
  applied : r.appliedGeneration ≤ r'.appliedGeneration
  left : r.state ≠ .active → r'.state ≠ .active
  revoked : r.state = .revoked → r'.state = .revoked
  /-- Within a generation neither state nor current key change. -/
  still : r'.generation = r.generation →
    r'.state = r.state ∧ r'.currentKey = r.currentKey ∧ r'.currentAddress = r.currentAddress

structure BindingGrows (b b' : BindingRow) : Prop where
  /-- Identity, ownership and creation are fixed. -/
  same : b'.publicKey = b.publicKey ∧ b'.deviceId = b.deviceId ∧ b'.address = b.address ∧
    b'.managedBy = b.managedBy ∧ b'.createdGeneration = b.createdGeneration
  revoked : b.revokedGeneration = 0 ∨ b'.revokedGeneration = b.revokedGeneration
  removed : b.removedGeneration ≤ b'.removedGeneration
  applied : b.applied = true → b'.applied = true

structure TombstoneGrows (t t' : TombstoneRow) : Prop where
  /-- All columns but the verification are fixed. -/
  same : t'.publicKey = t.publicKey ∧ t'.generation = t.generation ∧ t'.reason = t.reason ∧
    t'.committedAt = t.committedAt
  verified : Sticky t.verifiedAt t'.verifiedAt

/-- Evolution of an outbox row, apart from finished jobs. -/
structure OutboxGrows (x x' : OutboxRow) : Prop where
  same : x'.operationId = x.operationId
  attempts : x.attempts ≤ x'.attempts
  fence : x.fence ≤ x'.fence
  superseded : x.state = .superseded → x'.state = .superseded

structure IntentGrows (i i' : IntentRow) : Prop where
  /-- All columns but fence and state are fixed. -/
  same : i'.operationId = i.operationId ∧ i'.publicKey = i.publicKey ∧ i'.action = i.action ∧
    i'.epoch = i.epoch ∧ i'.generation = i.generation ∧ i'.address = i.address
  fence : i.fence ≤ i'.fence

theorem DeviceGrows.refl (r : DeviceRow) : DeviceGrows r r :=
  ⟨⟨rfl, rfl, rfl⟩, le_rfl, le_rfl, id, id, fun _ => ⟨rfl, rfl, rfl⟩⟩

theorem DeviceGrows.trans (a b c : DeviceRow) (h : DeviceGrows a b) (h' : DeviceGrows b c) :
    DeviceGrows a c where
  same := ⟨h'.same.1.trans h.same.1, h'.same.2.1.trans h.same.2.1, h'.same.2.2.trans h.same.2.2⟩
  generation := h.generation.trans h'.generation
  applied := h.applied.trans h'.applied
  left := h'.left ∘ h.left
  revoked := h'.revoked ∘ h.revoked
  still := by
    intro hg
    have hb : b.generation = a.generation :=
      le_antisymm (h'.generation.trans hg.le) h.generation
    obtain ⟨hs, hk, ha⟩ := h.still hb
    obtain ⟨hs', hk', ha'⟩ := h'.still (hg.trans hb.symm)
    exact ⟨hs'.trans hs, hk'.trans hk, ha'.trans ha⟩

theorem BindingGrows.refl (b : BindingRow) : BindingGrows b b :=
  ⟨⟨rfl, rfl, rfl, rfl, rfl⟩, .inr rfl, le_rfl, id⟩

theorem BindingGrows.trans (a b c : BindingRow) (h : BindingGrows a b) (h' : BindingGrows b c) :
    BindingGrows a c where
  same := by
    obtain ⟨h1, h2, h3, h4, h5⟩ := h.same
    obtain ⟨h1', h2', h3', h4', h5'⟩ := h'.same
    exact ⟨h1'.trans h1, h2'.trans h2, h3'.trans h3, h4'.trans h4, h5'.trans h5⟩
  revoked := by
    rcases h.revoked with hr | hr
    · exact .inl hr
    · rw [← hr]
      exact h'.revoked
  removed := h.removed.trans h'.removed
  applied := h'.applied ∘ h.applied

theorem TombstoneGrows.refl (t : TombstoneRow) : TombstoneGrows t t :=
  ⟨⟨rfl, rfl, rfl, rfl⟩, .inr rfl⟩

theorem TombstoneGrows.trans (a b c : TombstoneRow) (h : TombstoneGrows a b)
    (h' : TombstoneGrows b c) : TombstoneGrows a c where
  same := by
    obtain ⟨h1, h2, h3, h4⟩ := h.same
    obtain ⟨h1', h2', h3', h4'⟩ := h'.same
    exact ⟨h1'.trans h1, h2'.trans h2, h3'.trans h3, h4'.trans h4⟩
  verified := h.verified.trans h'.verified

theorem OutboxGrows.refl (x : OutboxRow) : OutboxGrows x x := ⟨rfl, le_rfl, le_rfl, id⟩

theorem OutboxGrows.trans (a b c : OutboxRow) (h : OutboxGrows a b) (h' : OutboxGrows b c) :
    OutboxGrows a c :=
  ⟨h'.same.trans h.same, h.attempts.trans h'.attempts, h.fence.trans h'.fence,
    h'.superseded ∘ h.superseded⟩

theorem IntentGrows.refl (i : IntentRow) : IntentGrows i i :=
  ⟨⟨rfl, rfl, rfl, rfl, rfl, rfl⟩, le_rfl⟩

theorem IntentGrows.trans (a b c : IntentRow) (h : IntentGrows a b) (h' : IntentGrows b c) :
    IntentGrows a c where
  same := by
    obtain ⟨h1, h2, h3, h4, h5, h6⟩ := h.same
    obtain ⟨h1', h2', h3', h4', h5', h6'⟩ := h'.same
    exact ⟨h1'.trans h1, h2'.trans h2, h3'.trans h3, h4'.trans h4, h5'.trans h5, h6'.trans h6⟩
  fence := h.fence.trans h'.fence

/-- Evolution of the authority tables. -/
structure AuthGrows (a a' : Authority) : Prop where
  metaRow : a'.metaRow = { a.metaRow with executorFence := a'.metaRow.executorFence }
  fence : a.metaRow.executorFence ≤ a'.metaRow.executorFence
  devices : Covers DeviceGrows a.devices a'.devices
  addresses : ∀ x ∈ a.addresses, x ∈ a'.addresses
  bindings : Covers BindingGrows a.bindings a'.bindings
  tombstones : Covers TombstoneGrows a.tombstones a'.tombstones
  operations : a.operations.rows <+: a'.operations.rows
  outbox : Covers OutboxGrows a.outbox a'.outbox
  intents : Covers IntentGrows a.intents a'.intents

theorem AuthGrows.refl (a : Authority) : AuthGrows a a where
  metaRow := rfl
  fence := le_rfl
  devices := covers_refl DeviceGrows.refl _
  addresses := fun _ h => h
  bindings := covers_refl BindingGrows.refl _
  tombstones := covers_refl TombstoneGrows.refl _
  operations := ⟨[], List.append_nil _⟩
  outbox := covers_refl OutboxGrows.refl _
  intents := covers_refl IntentGrows.refl _

theorem AuthGrows.trans {a b c : Authority} (h : AuthGrows a b) (h' : AuthGrows b c) :
    AuthGrows a c where
  metaRow := by
    rw [h'.metaRow, h.metaRow]
  fence := h.fence.trans h'.fence
  devices := covers_trans DeviceGrows.trans h.devices h'.devices
  addresses := fun x hx => h'.addresses x (h.addresses x hx)
  bindings := covers_trans BindingGrows.trans h.bindings h'.bindings
  tombstones := covers_trans TombstoneGrows.trans h.tombstones h'.tombstones
  operations := h.operations.trans h'.operations
  outbox := covers_trans OutboxGrows.trans h.outbox h'.outbox
  intents := covers_trans IntentGrows.trans h.intents h'.intents

theorem AuthGrows.operation {a a' : Authority} (h : AuthGrows a a') {o : OperationRow}
    (ho : o ∈ a.operations) : o ∈ a'.operations :=
  h.operations.subset ho

/-! ## Rows of the registry -/

structure ActivationGrows (x x' : ActivationRow) : Prop where
  /-- All columns but the consumption are fixed. -/
  same : x'.activationId = x.activationId ∧ x'.verifier = x.verifier ∧ x'.ownerId = x.ownerId ∧
    x'.validUntil = x.validUntil ∧ x'.activationUntil = x.activationUntil
  device : Sticky x.consumedDevice x'.consumedDevice
  time : Sticky x.consumedAt x'.consumedAt

structure CredentialGrows (c c' : CredentialRow) : Prop where
  /-- Identity and validity are fixed. -/
  same : c'.credentialId = c.credentialId ∧ c'.deviceId = c.deviceId ∧
    c'.publicKey = c.publicKey ∧ c'.validUntil = c.validUntil
  revoked : Sticky c.revokedAt c'.revokedAt
  replaced : Sticky c.replacedBy c'.replacedBy

theorem ActivationGrows.refl (x : ActivationRow) : ActivationGrows x x :=
  ⟨⟨rfl, rfl, rfl, rfl, rfl⟩, .inr rfl, .inr rfl⟩

theorem ActivationGrows.trans (a b c : ActivationRow) (h : ActivationGrows a b)
    (h' : ActivationGrows b c) : ActivationGrows a c where
  same := by
    obtain ⟨h1, h2, h3, h4, h5⟩ := h.same
    obtain ⟨h1', h2', h3', h4', h5'⟩ := h'.same
    exact ⟨h1'.trans h1, h2'.trans h2, h3'.trans h3, h4'.trans h4, h5'.trans h5⟩
  device := h.device.trans h'.device
  time := h.time.trans h'.time

theorem CredentialGrows.refl (c : CredentialRow) : CredentialGrows c c :=
  ⟨⟨rfl, rfl, rfl, rfl⟩, .inr rfl, .inr rfl⟩

theorem CredentialGrows.trans (a b c : CredentialRow) (h : CredentialGrows a b)
    (h' : CredentialGrows b c) : CredentialGrows a c where
  same := by
    obtain ⟨h1, h2, h3, h4⟩ := h.same
    obtain ⟨h1', h2', h3', h4'⟩ := h'.same
    exact ⟨h1'.trans h1, h2'.trans h2, h3'.trans h3, h4'.trans h4⟩
  revoked := h.revoked.trans h'.revoked
  replaced := h.replaced.trans h'.replaced

/-- Evolution of the registry; challenges come and go. -/
structure RegGrows (g g' : Registry) : Prop where
  activations : Covers ActivationGrows g.activations g'.activations
  credentials : Covers CredentialGrows g.credentials g'.credentials
  requests : ∀ x ∈ g.requests, x ∈ g'.requests
  receipts : ∀ x ∈ g.receipts, x ∈ g'.receipts
  cancellations : ∀ x ∈ g.cancellations, x ∈ g'.cancellations
  audit : ∀ x ∈ g.audit, x ∈ g'.audit

theorem RegGrows.refl (g : Registry) : RegGrows g g where
  activations := covers_refl ActivationGrows.refl _
  credentials := covers_refl CredentialGrows.refl _
  requests := fun _ h => h
  receipts := fun _ h => h
  cancellations := fun _ h => h
  audit := fun _ h => h

theorem RegGrows.trans {a b c : Registry} (h : RegGrows a b) (h' : RegGrows b c) :
    RegGrows a c where
  activations := covers_trans ActivationGrows.trans h.activations h'.activations
  credentials := covers_trans CredentialGrows.trans h.credentials h'.credentials
  requests := fun x hx => h'.requests x (h.requests x hx)
  receipts := fun x hx => h'.receipts x (h.receipts x hx)
  cancellations := fun x hx => h'.cancellations x (h.cancellations x hx)
  audit := fun x hx => h'.audit x (h.audit x hx)

/-- Evolution of the database. -/
structure Grows (db db' : DB) : Prop where
  authority : AuthGrows db.toAuthority db'.toAuthority
  registry : RegGrows db.toRegistry db'.toRegistry

theorem Grows.refl (db : DB) : Grows db db := ⟨AuthGrows.refl _, RegGrows.refl _⟩

theorem Grows.trans {a b c : DB} (h : Grows a b) (h' : Grows b c) : Grows a c :=
  ⟨h.authority.trans h'.authority, h.registry.trans h'.registry⟩

end DaxiangVpn.DeviceAuthGrowth
