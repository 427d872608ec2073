import DaxiangVpn.DeviceAuthMoves

/-!
# Identities of the authority

Only part of what identifies a device is enforced by the schema; the rest holds
over every run.
-/

namespace DaxiangVpn.DeviceAuthIdentities

open RelationTable DeviceAuthTables DeviceAuthProcess DeviceAuthWorld DeviceAuthChanges
  DeviceAuthGrowth
open DeviceAuthRegistry DeviceAuthMoves TransitionRun Relation

/-! ## Keys, tombstones and generations -/

variable {b : BindingRow} {r : DeviceRow}

section

variable {s : Store} {sc : Scope} {db : DB}

section

variable (hinv : DBInv s sc db)
include hinv

theorem unrevoked_current (hr : r ∈ db.devices) (hb : b ∈ db.bindings)
    (hdev : b.deviceId = r.deviceId) (hz : b.revokedGeneration = 0) :
    r.currentKey = some b.publicKey ∧
    r.currentAddress = some b.address ∧ b.createdGeneration = r.generation := by
  obtain ⟨r', hr', hid, -, -, -, hcur⟩ := (hinv.authority.core.bindings b hb).owned
  cases Table.eq_of_key hr' hr (hid.trans hdev)
  have hkey := hcur hz
  rcases (hinv.authority.core.devices r hr).current with ⟨hnone, -⟩ | ⟨-, b', hb', -,
    -, hgen, hk, ha⟩
  · cases hkey.symm.trans hnone
  · have hsame : b'.publicKey = b.publicKey := Option.some.inj (hk.symm.trans hkey)
    cases Table.eq_of_key hb' hb hsame
    exact ⟨hkey, ha, hgen⟩

theorem current_binding (hr : r ∈ db.devices) {key : String} (hkey : r.currentKey = some key) :
    ∃ b ∈ db.bindings, b.deviceId = r.deviceId ∧ b.publicKey = key ∧
    r.currentAddress = some b.address := by
  rcases (hinv.authority.core.devices r hr).current with ⟨hnone, -⟩ | ⟨-, b, hb, hdev, -, -, hk, ha⟩
  · cases hkey.symm.trans hnone
  · exact ⟨b, hb, hdev, Option.some.inj (hk.symm.trans hkey), ha⟩

theorem current_address (hr : r ∈ db.devices) {address : String}
    (haddr : r.currentAddress = some address) :
    ∃ b ∈ db.bindings, b.deviceId = r.deviceId ∧ b.address = address := by
  rcases (hinv.authority.core.devices r hr).current with ⟨-, hnone⟩ | ⟨-, b, hb, hdev, -, -, -, ha⟩
  · cases haddr.symm.trans hnone
  · exact ⟨b, hb, hdev, Option.some.inj (ha.symm.trans haddr)⟩

theorem revoked_tombstone (hb : b ∈ db.bindings) (hpos : 0 < b.revokedGeneration) :
    ∃! t, t ∈ db.tombstones ∧ t.publicKey = b.publicKey ∧ t.generation = b.revokedGeneration := by
  obtain ⟨t, ht, hkey, hgen⟩ := (hinv.authority.core.bindings b hb).buried hpos
  refine ⟨t, ⟨ht, hkey, hgen⟩, fun t' ht' => ?_⟩
  exact Table.eq_of_key ht'.1 ht (Prod.ext (ht'.2.1.trans hkey.symm) (ht'.2.2.trans hgen.symm))

theorem tombstone_generation {t : TombstoneRow} (hb : b ∈ db.bindings) (ht : t ∈ db.tombstones)
    (hkey : t.publicKey = b.publicKey) : t.generation = b.revokedGeneration := by
  obtain ⟨b', hb', hkey', hgen⟩ := (hinv.authority.core.tombstones t ht).grave
  cases Table.eq_of_key hb' hb (hkey'.trans hkey)
  exact hgen.symm

end

end

/-! ## Succession of credentials -/

/-- The second credential replaced the first. -/
def Replaced (g : Registry) (c c' : CredentialRow) : Prop :=
  c' ∈ g.credentials ∧ c.replacedBy = some c'.credentialId

/-- Following the successors of a credential never returns and ends at one
that was not replaced. -/
theorem replaced_ends {s : Store} {sc : Scope} {a : Authority} {g : Registry}
    (hinv : RegInv s sc a g) {c : CredentialRow} (hc : c ∈ g.credentials) :
    ¬ TransGen (Replaced g) c c ∧ ∃ last ∈ g.credentials, ReflTransGen (Replaced g) c last ∧
    last.replacedBy = none := by
  have hlater : g.credentials.rows.Pairwise fun c c' => ¬ Replaced g c' c :=
    hinv.ordered.imp fun hne hrep => hne hrep.2
  have hirr : ∀ c ∈ g.credentials.rows, ¬ Replaced g c c :=
    fun c hc hrep => hinv.irreflexive c hc hrep.2
  obtain ⟨hacyclic, last, hlast, hreach, hend⟩ :=
    ends_of_later (fun _ _ _ hrep => hrep.1) hirr hlater c hc
  refine ⟨hacyclic, last, hlast, hreach, ?_⟩
  cases hrep : last.replacedBy with
  | none => rfl
  | some n =>
    obtain ⟨c', hc', hid, -⟩ := (hinv.credentials last hlast).next n hrep
    exact absurd ⟨hc', hid.symm ▸ hrep⟩ (hend c')

/-! ## Every run -/

/-- What identifies devices and clients in a database. -/
structure Identities (db : DB) : Prop where
  /-- A device has at most one unrevoked key. -/
  single : ∀ b ∈ db.bindings, ∀ b' ∈ db.bindings, b.deviceId = b'.deviceId →
    b.revokedGeneration = 0 → b'.revokedGeneration = 0 → b = b'
  /-- The unrevoked key is the current one, created at the latest generation. -/
  current : ∀ r ∈ db.devices, ∀ b ∈ db.bindings, b.deviceId = r.deviceId →
    b.revokedGeneration = 0 → r.currentKey = some b.publicKey ∧
      r.currentAddress = some b.address ∧ b.createdGeneration = r.generation
  /-- A revoked key has exactly one tombstone, of the revoking generation. -/
  buried : ∀ b ∈ db.bindings, 0 < b.revokedGeneration →
    (∃! t, t ∈ db.tombstones ∧ t.publicKey = b.publicKey) ∧
      ∀ t ∈ db.tombstones, t.publicKey = b.publicKey → t.generation = b.revokedGeneration
  numbered : ∀ r ∈ db.devices, ∀ g, 0 < g → g ≤ r.generation →
    ∃! o, o ∈ db.operations ∧ o.deviceId = r.deviceId ∧ o.generation = g
  /-- There are no operations of other generations. -/
  bounded : ∀ o ∈ db.operations, ∃ r ∈ db.devices, r.deviceId = o.deviceId ∧
    0 < o.generation ∧ o.generation ≤ r.generation
  keys : ∀ r ∈ db.devices, ∀ r' ∈ db.devices, ∀ key, r.currentKey = some key →
    r'.currentKey = some key → r = r'
  addresses : ∀ r ∈ db.devices, ∀ r' ∈ db.devices, ∀ address, r.currentAddress = some address →
    r'.currentAddress = some address → r = r'
  credentials : ∀ c ∈ db.credentials, ∀ c' ∈ db.credentials, c.deviceId = c'.deviceId →
    c.revokedAt = none → c'.revokedAt = none → c = c'
  identityKeys : ∀ c ∈ db.credentials, ∀ c' ∈ db.credentials, c.publicKey = c'.publicKey → c = c'
  succession : ∀ c ∈ db.credentials, ¬ TransGen (Replaced db.toRegistry) c c ∧
    ∃ last ∈ db.credentials, ReflTransGen (Replaced db.toRegistry) c last ∧ last.replacedBy = none

/-- A database in order identifies its devices and clients. -/
theorem identities_of_inv {s : Store} {sc : Scope} {db : DB} (hinv : DBInv s sc db) :
    Identities db where
  single := by
    intro b hb b' hb' hdev hz hz'
    obtain ⟨r, hr, hid, -⟩ := (hinv.authority.core.bindings b hb).owned
    have hkey := (unrevoked_current hinv hr hb hid.symm hz).1
    have hkey' := (unrevoked_current hinv hr hb' (hdev.symm.trans hid.symm) hz').1
    exact Table.eq_of_key hb hb' (Option.some.inj (hkey.symm.trans hkey'))
  current := fun r hr b hb hdev hz => unrevoked_current hinv hr hb hdev hz
  buried := by
    intro b hb hpos
    obtain ⟨t, ⟨ht, hkey, -⟩, hunique⟩ := revoked_tombstone hinv hb hpos
    refine ⟨⟨t, ⟨ht, hkey⟩, fun t' ht' => hunique t' ⟨ht'.1, ht'.2, ?_⟩⟩, fun t ht hk => ?_⟩
    · exact tombstone_generation hinv hb ht'.1 ht'.2
    · exact tombstone_generation hinv hb ht hk
  numbered := by
    intro r hr g hpos hle
    obtain ⟨o, ho, hdev, hgen, -⟩ := (hinv.authority.core.devices r hr).history g hpos hle
    refine ⟨o, ⟨ho, hdev, hgen⟩, fun o' ho' => ?_⟩
    exact hinv.authority.core.unique o' ho'.1 o ho (ho'.2.1.trans hdev.symm)
      (ho'.2.2.trans hgen.symm)
  bounded := by
    intro o ho
    obtain ⟨hpos, r, hr, hid, -, hle⟩ := (hinv.authority.core.operations o ho).owned
    exact ⟨r, hr, hid, hpos, hle⟩
  keys := by
    intro r hr r' hr' key hkey hkey'
    obtain ⟨b, hb, hdev, hbk, -⟩ := current_binding hinv hr hkey
    obtain ⟨b', hb', hdev', hbk', -⟩ := current_binding hinv hr' hkey'
    cases Table.eq_of_key hb hb' (hbk.trans hbk'.symm)
    exact Table.eq_of_key hr hr' (hdev.symm.trans hdev')
  addresses := by
    intro r hr r' hr' address haddr haddr'
    obtain ⟨b, hb, hdev, hba⟩ := current_address hinv hr haddr
    obtain ⟨b', hb', hdev', hba'⟩ := current_address hinv hr' haddr'
    have hsame := hinv.authority.core.device_of_bound hb hb' (hba.trans hba'.symm)
    exact Table.eq_of_key hr hr' (hdev.symm.trans (hsame.trans hdev'))
  credentials := hinv.registry.single
  identityKeys := hinv.registry.keys
  succession := fun c hc => replaced_ends hinv.registry hc

/-- Every state of every run identifies its devices and clients, and an address
that was ever bound stays bound and belongs to its device in every later state. -/
theorem run_identities (s : Store) (runtime : List Peer) (time : ℤ) (first later : List Input) :
    let w := run (step s) (init s runtime time) first
    let w' := run (step s) w later
    Identities w.db ∧ ∀ b ∈ w.db.bindings,
      (∃ b' ∈ w'.db.bindings, b'.publicKey = b.publicKey ∧ b'.address = b.address) ∧
        ∀ b' ∈ w'.db.bindings, b'.address = b.address → b'.deviceId = b.deviceId := by
  intro w w'
  have hw : WorldInv s .all w := run_worldInv (init_worldInv s .all runtime time)
    (along_all s _ first)
  have hw' : WorldInv s .all w' := run_worldInv hw (along_all s w later)
  have hg : Grows w.db w'.db := run_grows hw (along_all s w later)
  refine ⟨identities_of_inv hw.db, fun b hb => ?_⟩
  obtain ⟨kept, hkept, hgrow⟩ := hg.authority.bindings b hb
  obtain ⟨hkey, hdev, haddr, -⟩ := hgrow.same
  refine ⟨⟨kept, hkept, hkey, haddr⟩, fun b' hb' hsame => ?_⟩
  exact (hw'.db.authority.core.device_of_bound hb' hkept (hsame.trans haddr.symm)).trans hdev

end DaxiangVpn.DeviceAuthIdentities
