import Mathlib.Data.List.Sort
import DaxiangVpn.CheckedSteps
import DaxiangVpn.HexTexts
import DaxiangVpn.NetipPrefix

/-!
# Authority policy, identifiers and key encodings

Input checks of the device authority: identifiers, WireGuard and Ed25519 public
keys, the normalized policy, and the address rule that admits one customer host
inside a pool and outside every protection. Normalization and the address rule
are projections.
-/

namespace DaxiangVpn.DeviceAuthPolicy

open CheckedSteps HexTexts NetipPrefix

/-- The sentinel an error of the package wraps. -/
inductive Err
  | invalid
  | conflict
  | unauthorized
  | generation
  | superseded
  | protectedPeer
  | expired
  | overdue
  | verification
  | executionUnknown
  | policy
  | quota
  | noRows
  | sql
  deriving DecidableEq

/-- `identifier`: nonempty, at most 256 bytes, trimmed and free of control
characters. Lean strings are valid UTF-8, so that check is the type. -/
def identifier (v : String) : Bool :=
  v ≠ "" && v.utf8ByteSize ≤ 256 && v.toList.head?.all (fun c => !isSpace c) &&
    v.toList.getLast?.all (fun c => !isSpace c) && !v.toList.any isControl

def base64Value (c : Char) : Option ℕ :=
  let n := c.toNat
  if 65 ≤ n ∧ n ≤ 90 then some (n - 65)
  else if 97 ≤ n ∧ n ≤ 122 then some (n - 71)
  else if 48 ≤ n ∧ n ≤ 57 then some (n + 4)
  else if n = 43 then some 62
  else if n = 47 then some 63
  else none

/-- The 256-bit number of a canonical base64 text of 32 bytes: 43 characters
whose last two bits are zero, and one padding character. -/
def keyValue (v : String) : Option ℕ :=
  if v.length = 44 ∧ v.toList.getLast? = some '=' then
    match (v.toList.take 43).mapM base64Value with
    | some ds => if ofDigits 64 ds % 4 = 0 then some (ofDigits 64 ds / 4) else none
    | none => none
  else none

/-- `validKey`: a canonical WireGuard public key that is not all zero. -/
def validKey (v : String) : Bool :=
  match keyValue v with
  | some n => n ≠ 0
  | none => false

/-- `signingkey.ValidEd25519PublicKey`: the little-endian `y` is canonical and
not a known small-order coordinate. -/
def validEd25519PublicKey (key : ℕ) : Bool :=
  let y := ofDigits 256 (digits 256 32 key).reverse % 2 ^ 255
  y < 2 ^ 255 - 19 && y ≠ 0 && y ≠ 1 && y ≠ 2 ^ 255 - 20 &&
    y ≠ 0x05fc536d880238b13933c6d305acdfd5f098eff289f4c345b027b2c28f95e826 &&
    y ≠ 0x7a03ac9277fdc74ec6cc392cfa53202a0f67100d760b3cba4fd84d3d706a17c7

/-- `authKey`: a canonical Ed25519 identity key; every other text is `ErrInvalid`. -/
def authKey (key : String) : Bool :=
  match keyValue key with
  | some n => validEd25519PublicKey n
  | none => false

/-- `Protection`: a key or a range that is never a customer peer. -/
structure Protection where
  publicKey : String
  /-- Protected prefix in CIDR text, or empty. -/
  range : String
  deriving DecidableEq

/-- `Policy`: the authority's identity, its pools and its protections. -/
structure Policy where
  epoch : String
  /-- Owner mark on every managed peer. -/
  managedBy : String
  addressPools : List String
  /-- Keys and ranges that are never managed. -/
  protections : List Protection
  deriving DecidableEq

/-- One address pool in canonical text: a masked, unmapped, nonempty prefix. -/
def normalizePool (pool : String) : Except Err String := do
  let p ← demand (parsePrefix pool) .invalid
  deny (p.addr.is4In6 || p.bits = 0 || p ≠ p.masked) .invalid
  pure p.string

/-- One protection with its range in canonical text. -/
def normalizeProtection (protection : Protection) : Except Err Protection := do
  deny (protection.publicKey = "" ∧ protection.range = "") .invalid
  deny (protection.publicKey ≠ "" ∧ validKey protection.publicKey = false) .invalid
  if protection.range = "" then pure protection
  else do
    let p ← demand (parsePrefix protection.range) .invalid
    deny (p.addr.is4In6 || p ≠ p.masked) .invalid
    pure { protection with range := p.string }

/-- Sort order of protections: by key, then by range. -/
def protectionLe (a b : Protection) : Prop :=
  a.publicKey < b.publicKey ∨ a.publicKey = b.publicKey ∧ a.range ≤ b.range

/-- The order of two protections can be evaluated. -/
instance : DecidableRel protectionLe := fun a b =>
  inferInstanceAs
    (Decidable (a.publicKey < b.publicKey ∨ a.publicKey = b.publicKey ∧ a.range ≤ b.range))

def normalizePolicy (p : Policy) : Except Err Policy := do
  deny (!identifier p.epoch || !identifier p.managedBy || p.addressPools.length = 0 ||
    64 < p.addressPools.length || 1024 < p.protections.length) .invalid
  let pools ← mapRows normalizePool p.addressPools
  let pools := pools.insertionSort (· ≤ ·)
  deny (!decide pools.Nodup) .invalid
  let protections ← mapRows normalizeProtection p.protections
  pure { p with addressPools := pools, protections := protections.insertionSort protectionLe }

/-- Whether the policy protects the key or a range that meets the prefix. -/
def Policy.isProtected (policy : Policy) (key : String) (p : IpPrefix) : Bool :=
  policy.protections.any fun protection =>
    (protection.publicKey ≠ "" && key = protection.publicKey) ||
      (protection.range ≠ "" && (parsePrefix protection.range).any fun r => r.overlaps p)

/-- `Store.address`: the canonical text of a customer host of the policy. -/
def Policy.address (policy : Policy) (key value : String) : Except Err String := do
  let p ← demand (parsePrefix value) .invalid
  deny (p.addr.is4In6 || !p.isHost || p.addr.isUnspecified || p.addr.isMulticast ||
    p.addr.isLoopback) .invalid
  deny (!policy.addressPools.any fun pool => (parsePrefix pool).any fun r => r.contains p.addr)
    .protectedPeer
  deny (policy.isProtected key p) .protectedPeer
  pure p.string

variable {policy : Policy} {key value a : String} (h : policy.address key value = .ok a)

include h

/-- What an admitted address is: one unmapped host inside a pool, outside
every protection, in canonical text. -/
theorem address_ok :
    ∃ p, parsePrefix value = some p ∧ p.addr.is4In6 = false ∧ p.isHost = true ∧
      policy.isProtected key p = false ∧ a = p.string := by
  obtain ⟨p, hp, h⟩ := demand_bind_ok.mp h
  obtain ⟨hshape, h⟩ := deny_bind_ok.mp h
  replace h := rest_ok h
  obtain ⟨hprot, h⟩ := deny_bind_ok.mp h
  simp only [Bool.or_eq_false_iff, Bool.not_eq_eq_eq_not, Bool.not_false] at hshape
  exact ⟨p, hp, hshape.1.1.1.1, hshape.1.1.1.2, hprot, (pure_ok.mp h).symm⟩

theorem address_ne_empty : value ≠ "" := by
  rintro rfl
  obtain ⟨p, hp, -⟩ := address_ok h
  have hnone : parsePrefix "" = none := by decide
  cases hnone.symm.trans hp

/-- The canonical text of an admitted address is admitted and fixed. -/
theorem address_idem : policy.address key a = .ok a := by
  obtain ⟨p, hp, hmap, -, -, rfl⟩ := address_ok h
  have hparse : parsePrefix p.string = some p := parsePrefix_string hmap
  unfold Policy.address at h ⊢
  rw [hparse]
  rw [hp] at h
  exact h

end DaxiangVpn.DeviceAuthPolicy
