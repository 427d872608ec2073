import Mathlib.Algebra.Order.Field.Basic
import Mathlib.Tactic.Linarith
import Mathlib.Tactic.Ring

/-!
# Token buckets

A bucket holds at most a burst of tokens and gains one token for each period. Its level at a later
time is what a refill would leave in it, so refilling early or late is the same. Charges that each
find a token in the bucket are few in every window of time.
-/

namespace DaxiangVpn.TokenBucket
open List

variable {K : Type*} [Field K] [LinearOrder K]

structure Bucket (K : Type*) where
  tokens : K
  last : K

/-- Tokens that accrue up to a time, capped by the burst. -/
def refill (burst every : K) (b : Bucket K) (now : K) : Bucket K :=
  if b.last < now then ⟨min burst (b.tokens + (now - b.last) / every), now⟩ else b

def level (burst every : K) (b : Bucket K) (now : K) : K := (refill burst every b now).tokens

def spend (b : Bucket K) : Bucket K := { b with tokens := b.tokens - 1 }

/-- One token is taken after a refill. -/
def charge (burst every : K) (b : Bucket K) (now : K) : Bucket K := spend (refill burst every b now)

/-- A bucket within its bounds that was not refilled after a time. -/
structure Sound (burst : K) (b : Bucket K) (now : K) : Prop where
  nonneg : 0 ≤ b.tokens
  capped : b.tokens ≤ burst
  past : b.last ≤ now

/-- Each charge comes after the one before it and finds a token. -/
def Funded (burst every : K) : Bucket K → List K → Prop
  | _, [] => True
  | b, t :: ts => b.last ≤ t ∧ 1 ≤ level burst every b t ∧
      Funded burst every (charge burst every b t) ts

section

variable {burst every now t : K} {b : Bucket K}

/-- The level of a bucket that is not refilled in the future. -/
theorem level_eq (h : Sound burst b t) :
    level burst every b t = min burst (b.tokens + (t - b.last) / every) := by
  unfold level refill
  split_ifs with hlast
  · rfl
  · have heq : t = b.last := le_antisymm (not_lt.mp hlast) h.past
    rw [heq, sub_self, zero_div, add_zero, min_eq_right h.capped]

theorem level_le_add (h : Sound burst b now) :
    level burst every b now ≤ b.tokens + (now - b.last) / every := by
  rw [level_eq h]
  exact min_le_right _ _

/-- A bucket stays sound as time goes by. -/
theorem Sound.later (h : Sound burst b now) (ht : now ≤ t) : Sound burst b t :=
  ⟨h.nonneg, h.capped, h.past.trans ht⟩

variable [IsStrictOrderedRing K]

theorem Sound.refill (hevery : 0 < every) (h : Sound burst b now) :
    Sound burst (refill burst every b now) now ∧
    (TokenBucket.refill burst every b now).last = now := by
  unfold TokenBucket.refill
  split_ifs with hlast
  · have hgain : 0 ≤ (now - b.last) / every := div_nonneg (sub_nonneg.mpr hlast.le) hevery.le
    have hburst : 0 ≤ burst := h.nonneg.trans h.capped
    exact ⟨⟨le_min hburst (add_nonneg h.nonneg hgain), min_le_left _ _, le_rfl⟩, rfl⟩
  · exact ⟨h, le_antisymm h.past (not_lt.mp hlast)⟩

/-- An early refill does not change the level later. -/
theorem level_refill (hevery : 0 < every) (h : Sound burst b now) (ht : now ≤ t) :
    level burst every (refill burst every b now) t = level burst every b t := by
  obtain ⟨hsound, hlast⟩ := h.refill hevery
  have hgain : 0 ≤ (t - now) / every := div_nonneg (sub_nonneg.mpr ht) hevery.le
  have hnow : (refill burst every b now).tokens = min burst (b.tokens + (now - b.last) / every) :=
    level_eq h
  have hsum : (t - b.last) / every = (now - b.last) / every + (t - now) / every := by ring
  rw [level_eq (hsound.later ht), level_eq (h.later ht), hlast, hnow, hsum, ← add_assoc]
  rcases le_total burst (b.tokens + (now - b.last) / every) with hfull | hroom
  · rw [min_eq_left hfull, min_eq_left (le_add_of_nonneg_right hgain),
      min_eq_left (hfull.trans (le_add_of_nonneg_right hgain))]
  · rw [min_eq_right hroom]

/-- A bucket with a token is within its bounds after the token is taken. -/
theorem Sound.spend (h : Sound burst b now) (hfunds : 1 ≤ b.tokens) : Sound burst (spend b) now :=
  ⟨sub_nonneg.mpr hfunds, (sub_le_self _ zero_le_one).trans h.capped, h.past⟩

/-- A bucket with a token is within its bounds after a charge. -/
theorem Sound.charge (hevery : 0 < every) (h : Sound burst b now)
    (hfunds : 1 ≤ level burst every b now) :
    Sound burst (charge burst every b now) now ∧
    (TokenBucket.charge burst every b now).last = now := by
  obtain ⟨hsound, hlast⟩ := h.refill hevery
  exact ⟨hsound.spend hfunds, hlast⟩

theorem level_charge (hevery : 0 < every) (h : Sound burst b now)
    (hfunds : 1 ≤ level burst every b now) (ht : now ≤ t) :
    level burst every (charge burst every b now) t =
      min burst (level burst every b now - 1 + (t - now) / every) := by
  obtain ⟨hsound, hlast⟩ := h.charge hevery hfunds
  rw [level_eq (hsound.later ht), hlast]
  rfl

theorem level_full (hevery : 0 < every) (hlast : b.last ≤ t) (hfull : b.tokens = burst) :
    level burst every b t = burst := by
  unfold level refill
  split
  · rw [hfull]
    exact min_eq_left (le_add_of_nonneg_right (div_nonneg (sub_nonneg.mpr hlast) hevery.le))
  · exact hfull

end

section

variable {burst every : K}

/-- Charges one after the other. -/
def charges (burst every : K) (b : Bucket K) (ts : List K) : Bucket K :=
  ts.foldl (charge burst every) b

theorem charges_append (b : Bucket K) (ts : List K) (t : K) :
    charges burst every b (ts ++ [t]) = charge burst every (charges burst every b ts) t := by
  unfold charges
  rw [foldl_append]
  rfl

variable {b : Bucket K} {ts : List K}

/-- One more charge of a bucket that has a token for it. -/
theorem Funded.append {t : K} (h : Funded burst every b ts)
    (hlast : (charges burst every b ts).last ≤ t)
    (hfunds : 1 ≤ level burst every (charges burst every b ts) t) :
    Funded burst every b (ts ++ [t]) := by
  induction ts generalizing b with
  | nil => exact ⟨hlast, hfunds, trivial⟩
  | cons first rest ih => exact ⟨h.1, h.2.1, ih h.2.2 hlast hfunds⟩

variable [IsStrictOrderedRing K]

section

variable (hevery : 0 < every) (h : Funded burst every b ts) (hsound : Sound burst b b.last)
include hevery h hsound

theorem Funded.after : ∀ t ∈ ts, b.last ≤ t := by
  induction ts generalizing b with
  | nil => exact fun t ht => absurd ht not_mem_nil
  | cons first rest ih =>
    obtain ⟨hfirst, hfunds, hrest⟩ := h
    obtain ⟨hcharged, hlast⟩ := (hsound.later hfirst).charge hevery hfunds
    intro t ht
    rcases mem_cons.mp ht with rfl | ht
    · exact hfirst
    · have hlater := ih hrest (by rw [hlast]; exact hcharged) t ht
      rw [hlast] at hlater
      exact hfirst.trans hlater

/-- Charges up to a time spend what was there and what accrued. -/
theorem Funded.spent {last : K} (hl : b.last ≤ last) :
    ((ts.countP fun t => decide (t ≤ last)) : K) ≤ b.tokens + (last - b.last) / every := by
  induction ts generalizing b with
  | nil =>
    rw [countP_nil, Nat.cast_zero]
    exact add_nonneg hsound.nonneg (div_nonneg (sub_nonneg.mpr hl) hevery.le)
  | cons first rest ih =>
    obtain ⟨hfirst, hfunds, hrest⟩ := h
    obtain ⟨hcharged, hlast⟩ := (hsound.later hfirst).charge hevery hfunds
    by_cases hin : first ≤ last
    · have hrest := ih hrest (by rw [hlast]; exact hcharged) (by rw [hlast]; exact hin)
      have htokens : (charge burst every b first).tokens = level burst every b first - 1 := rfl
      have hgrown : level burst every b first ≤ _ := level_le_add (hsound.later hfirst)
      have hsum : (last - b.last) / every = (first - b.last) / every +
        (last - first) / every := by ring
      rw [hlast, htokens] at hrest
      rw [countP_cons_of_pos (by simpa using hin), Nat.cast_succ, hsum]
      linarith only [hrest, hgrown]
    · have hnone : (first :: rest).countP (fun t => decide (t ≤ last)) = 0 := by
        rw [countP_eq_zero]
        intro t ht
        rw [decide_eq_true_eq, not_le]
        refine (not_le.mp hin).trans_le ?_
        rcases mem_cons.mp ht with rfl | ht
        · exact le_rfl
        · have hlater := hrest.after hevery (by rw [hlast]; exact hcharged) t ht
          rwa [hlast] at hlater
      rw [hnone, Nat.cast_zero]
      exact add_nonneg hsound.nonneg (div_nonneg (sub_nonneg.mpr hl) hevery.le)

/-- Charges in a window are at most the burst and what accrues in the window. -/
theorem Funded.window (start : K) {length : K} (hlength : 0 ≤ length) :
    ((ts.countP fun t => decide (start ≤ t ∧ t ≤ start + length)) : K) ≤ burst +
      length / every := by
  induction ts generalizing b with
  | nil =>
    rw [countP_nil, Nat.cast_zero]
    exact add_nonneg (hsound.nonneg.trans hsound.capped) (div_nonneg hlength hevery.le)
  | cons first rest ih =>
    obtain ⟨hfirst, hfunds, hrest⟩ := h
    obtain ⟨hcharged, hlast⟩ := (hsound.later hfirst).charge hevery hfunds
    by_cases hbefore : first < start
    · rw [countP_cons_of_neg (by simp [hbefore])]
      exact ih hrest (by rw [hlast]; exact hcharged)
    rw [not_lt] at hbefore
    -- the window begins with this charge, so the bucket is refilled to its time
    obtain ⟨hrefilled, hat⟩ := (hsound.later hfirst).refill hevery
    have hsame : refill burst every (refill burst every b first) first =
      refill burst every b first := by
      rw [refill, if_neg (by rw [hat]; exact lt_irrefl _)]
    have hfunded : Funded burst every (refill burst every b first) (first :: rest) := by
      refine ⟨hat.le, ?_, ?_⟩
      · unfold level
        rw [hsame]
        exact hfunds
      · unfold charge
        rw [hsame]
        exact hrest
    have hburst : (refill burst every b first).tokens ≤ burst := hrefilled.capped
    by_cases hin : first ≤ start + length
    · have hlate : (refill burst every b first).last ≤ start + length := by
        rw [hat]
        exact hin
      have hspent := hfunded.spent hevery (by rw [hat]; exact hrefilled) hlate
      rw [hat] at hspent
      have hfewer : (first :: rest).countP (fun t => decide (start ≤ t ∧ t ≤ start + length)) ≤
          (first :: rest).countP fun t => decide (t ≤ start + length) := by
        refine countP_mono_left fun t _ ht => ?_
        simp only [decide_eq_true_eq] at ht ⊢
        exact ht.2
      have hshort : (start + length - first) / every ≤ length / every := by
        refine div_le_div_of_nonneg_right ?_ hevery.le
        linarith only [hbefore]
      have hcast : ((first :: rest).countP (fun t => decide (start ≤ t ∧ t ≤ start + length)) : K) ≤
          ((first :: rest).countP fun t => decide (t ≤ start + length) : K) :=
          Nat.cast_le.mpr hfewer
      linarith only [hcast, hspent, hshort, hburst]
    · have hnone : (first :: rest).countP (fun t => decide (start ≤ t ∧ t ≤ start + length)) =
        0 := by
        rw [countP_eq_zero]
        intro t ht
        rw [decide_eq_true_eq, not_and, not_le]
        intro _
        have hlater := hfunded.after hevery (by rw [hat]; exact hrefilled) t ht
        rw [hat] at hlater
        exact (not_le.mp hin).trans_le hlater
      rw [hnone, Nat.cast_zero]
      exact add_nonneg (hsound.nonneg.trans hsound.capped) (div_nonneg hlength hevery.le)

theorem Funded.sound : Sound burst (charges burst every b ts) (charges burst every b ts).last := by
  induction ts generalizing b with
  | nil => exact hsound
  | cons first rest ih =>
    obtain ⟨hfirst, hfunds, hrest⟩ := h
    obtain ⟨hcharged, hlast⟩ := (hsound.later hfirst).charge hevery hfunds
    exact ih hrest (by rw [hlast]; exact hcharged)

end

end

end DaxiangVpn.TokenBucket
