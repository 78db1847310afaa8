/-
  FsBridge.Bridge.QueryParams

  The parameters of a session, as `serveWS` reads them from the query of the request
  (bridge/server.go).
-/

import Mathlib.Algebra.Group.Int.Defs
import FsBridge.Lib.Decimal
import FsBridge.Lib.Query

namespace FsBridge.Bridge.QueryParams

open FsBridge.Lib
open FsBridge.Lib.Query (cut get parseQuery)

/-- `strconv.Atoi`. -/
def atoi (s : Bytes) : Option Int :=
  match Decimal.parse s with
  | none => none
  | some n => if -2 ^ 63 ≤ n ∧ n < 2 ^ 63 then some n else none

/-- `queryInt`, on the value of the key. -/
def queryInt (v : Bytes) (default : Int) : Int :=
  if v ≠ [] then
    match atoi v with
    | some n => n
    | none => default
  else default

/-- `queryDefault`, on the value of the key. -/
def queryDefault (v : Bytes) (default : Bytes) : Bytes := if v ≠ [] then v else default

/-- `r.URL.RawQuery` of a request target. -/
def rawQuery (target : Bytes) : Bytes := (cut 63 target).2

/-- The fields of a `Session` that come from its URL. -/
structure SessionParams where
  sampleRate : Int
  mixType : Bytes
  fsUUID : Bytes
deriving DecidableEq, Repr

/-- The session `serveWS` makes for a request target. -/
def serveWS (target : Bytes) : SessionParams where
  sampleRate := queryInt (get (parseQuery (rawQuery target)) (ascii "rate")) 16000
  mixType := queryDefault (get (parseQuery (rawQuery target)) (ascii "mix")) (ascii "mono")
  fsUUID := get (parseQuery (rawQuery target)) (ascii "uuid")

theorem atoi_eq_some_iff {s : Bytes} {n : Int} :
    atoi s = some n ↔ Decimal.parse s = some n ∧ -2 ^ 63 ≤ n ∧ n < 2 ^ 63 := by
  rw [atoi]
  cases hparse : Decimal.parse s with
  | none => simp
  | some m =>
      simp only
      constructor
      · intro h
        split at h
        · obtain rfl := Option.some.inj h
          exact ⟨rfl, ‹_›⟩
        · exact absurd h (by simp)
      · rintro ⟨hm, hrange⟩
        obtain rfl := Option.some.inj hm
        exact if_pos hrange

/-- A printed rate of which `k` bytes are left is read as itself only if nothing was cut
    off, or if it is the default and nothing is left. -/
theorem queryInt_take_print {n default : Int} (hrange : -2 ^ 63 ≤ n ∧ n < 2 ^ 63)
    (hdefault : 0 ≤ default) (k : Nat) :
    queryInt ((Decimal.print n).take k) default = n ↔
      (Decimal.print n).length ≤ k ∨ k = 0 ∧ default = n := by
  rcases Nat.lt_or_ge k (Decimal.print n).length with hcut | hwhole
  · have hne := Decimal.parse_take_print hcut
    rcases Nat.eq_zero_or_pos k with rfl | hk
    · rw [List.take_zero, queryInt, if_neg (by simp)]
      constructor
      · intro h
        exact .inr ⟨rfl, h⟩
      · rintro (hlen | ⟨-, h⟩)
        · omega
        · exact h
    · have hnil : (Decimal.print n).take k ≠ [] := by
        rw [ne_eq, List.take_eq_nil_iff, not_or]
        exact ⟨by omega, Decimal.print_ne_nil n⟩
      rw [queryInt, if_pos hnil]
      constructor
      · intro h
        exfalso
        split at h
        · rename_i m hm
          subst h
          exact hne (atoi_eq_some_iff.mp hm).1
        · rename_i hnone
          -- the default is no negative number, and the first digits of another one parse
          obtain ⟨m, hm, hnonneg, hle⟩ := Decimal.parse_take_print_nonneg (by omega : 0 ≤ n) hk
          have hsome := atoi_eq_some_iff.mpr ⟨hm, by omega, by omega⟩
          exact absurd (hnone.symm.trans hsome) (by simp)
      · rintro (hlen | ⟨hzero, -⟩)
        · omega
        · omega
  · have hatoi := atoi_eq_some_iff.mpr ⟨Decimal.parse_print n, hrange⟩
    rw [List.take_of_length_le hwhole, queryInt, if_pos (Decimal.print_ne_nil n), hatoi]
    simp [hwhole]

end FsBridge.Bridge.QueryParams
