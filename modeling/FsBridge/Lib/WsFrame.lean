/-
  FsBridge.Lib.WsFrame

  WebSocket frames on the wire (RFC 6455, section 5.2).

  A frame is two bytes of flags and a length of seven bits, more length bytes where
  those say so, a masking key from a client, and the payload.  A length may be
  written in a longer form than it needs; `encode` takes the form as an argument.

  * `decode_encode`: what has been written is read back, whatever follows it.
  * `decode_eq_some`: nothing else is read.
-/

import FsBridge.Lib.Ascii
import Mathlib.Algebra.Group.Nat.Defs
import Mathlib.Data.List.Induction

namespace FsBridge.Lib

-- ============================================================================
-- Numbers in network byte order
-- ============================================================================

def beNat (s : Bytes) : Nat := s.foldl (fun n b => n * 256 + b.toNat) 0

/-- `n` in `w` bytes. -/
def beBytes : Nat → Nat → Bytes
  | 0, _ => []
  | w + 1, n => beBytes w (n / 256) ++ [n.toUInt8]

theorem beNat_append_singleton (s : Bytes) (b : UInt8) :
    beNat (s ++ [b]) = beNat s * 256 + b.toNat := by
  rw [beNat, List.foldl_append]
  rfl

@[simp] theorem length_beBytes (w n : Nat) : (beBytes w n).length = w := by
  induction w generalizing n with
  | zero => rfl
  | succ w ih => rw [beBytes, List.length_append, ih, List.length_singleton]

/-- A number written in enough bytes is read again. -/
theorem beNat_beBytes {w n : Nat} (h : n < 256 ^ w) : beNat (beBytes w n) = n := by
  induction w generalizing n with
  | zero =>
      have hzero : n = 0 := by simpa using h
      rw [hzero]
      rfl
  | succ w ih =>
      have hdiv : n / 256 < 256 ^ w := by
        rw [Nat.div_lt_iff_lt_mul (by decide)]
        exact h
      have hlast : n.toUInt8.toNat = n % 256 := rfl
      rw [beBytes, beNat_append_singleton, ih hdiv, hlast]
      omega

theorem beNat_lt (s : Bytes) : beNat s < 256 ^ s.length := by
  induction s using List.reverseRecOn with
  | nil => decide
  | append_singleton s b ih =>
      have hb := b.toNat_lt
      rw [beNat_append_singleton, List.length_append, List.length_singleton, Nat.pow_succ]
      omega

/-- Bytes read as a number are written again. -/
theorem beBytes_beNat (s : Bytes) : beBytes s.length (beNat s) = s := by
  induction s using List.reverseRecOn with
  | nil => rfl
  | append_singleton s b ih =>
      have hb := b.toNat_lt
      have hdiv : (beNat s * 256 + b.toNat) / 256 = beNat s := by omega
      have hlast : (beNat s * 256 + b.toNat).toUInt8 = b := by
        rw [← UInt8.toNat_inj]
        show (beNat s * 256 + b.toNat) % 256 = b.toNat
        omega
      rw [beNat_append_singleton, List.length_append, List.length_singleton, beBytes, hdiv, ih,
        hlast]

-- ============================================================================
-- Masking
-- ============================================================================

structure MaskKey where
  k0 : UInt8
  k1 : UInt8
  k2 : UInt8
  k3 : UInt8
deriving DecidableEq, Repr

/-- The byte of the key for position `i` of the payload. -/
def MaskKey.byte (key : MaskKey) (i : Nat) : UInt8 :=
  match i % 4 with
  | 0 => key.k0
  | 1 => key.k1
  | 2 => key.k2
  | _ => key.k3

/-- The payload from position `i` on, masked. -/
def maskFrom (key : MaskKey) : Nat → Bytes → Bytes
  | _, [] => []
  | i, b :: s => (b ^^^ key.byte i) :: maskFrom key (i + 1) s

def mask (key : MaskKey) (s : Bytes) : Bytes := maskFrom key 0 s

/-- Masking twice is not masking. -/
theorem maskFrom_maskFrom (key : MaskKey) (i : Nat) (s : Bytes) :
    maskFrom key i (maskFrom key i s) = s := by
  induction s generalizing i with
  | nil => rfl
  | cons b s ih => rw [maskFrom, maskFrom, ih, UInt8.xor_assoc, UInt8.xor_self, UInt8.xor_zero]

/-- Masking twice is not masking. -/
theorem mask_mask (key : MaskKey) (s : Bytes) : mask key (mask key s) = s :=
  maskFrom_maskFrom key 0 s

@[simp] theorem length_mask (key : MaskKey) (s : Bytes) : (mask key s).length = s.length := by
  have hfrom : ∀ i, (maskFrom key i s).length = s.length := by
    induction s with
    | nil => exact fun _ => rfl
    | cons b s ih => exact fun i => congrArg (· + 1) (ih (i + 1))
  exact hfrom 0

-- ============================================================================
-- Frames
-- ============================================================================

instance opcodes_neZero : @NeZero Nat Zero.ofOfNat0 16 := ⟨Nat.succ_ne_zero 15⟩

structure WsFrame where
  fin : Bool
  rsv1 : Bool
  rsv2 : Bool
  rsv3 : Bool
  opcode : Fin 16
  maskKey : Option MaskKey
  payload : Bytes
deriving DecidableEq, Repr

/-- How a payload length is written: in the second byte, or in two or eight bytes
    behind it. -/
inductive LengthForm where
  | short
  | medium
  | long
deriving DecidableEq, Repr

namespace LengthForm

/-- The length can be written in the form. -/
def Fits : LengthForm → Nat → Prop
  | short, n => n ≤ 125
  | medium, n => n < 256 ^ 2
  | long, n => n < 256 ^ 8

instance (form : LengthForm) (n : Nat) : Decidable (form.Fits n) :=
  match form with
  | short => inferInstanceAs (Decidable (n ≤ 125))
  | medium => inferInstanceAs (Decidable (n < 256 ^ 2))
  | long => inferInstanceAs (Decidable (n < 256 ^ 8))

/-- The seven bits of the second byte. -/
def code : LengthForm → Nat → Nat
  | short, n => n
  | medium, _ => 126
  | long, _ => 127

/-- The bytes behind the second one. -/
def extended : LengthForm → Nat → Bytes
  | short, _ => []
  | medium, n => beBytes 2 n
  | long, n => beBytes 8 n

/-- The shortest form. -/
def minimal (n : Nat) : LengthForm :=
  if n ≤ 125 then short else if n < 256 ^ 2 then medium else long

theorem minimal_fits {n : Nat} (h : n < 256 ^ 8) : (minimal n).Fits n := by
  unfold minimal
  split
  · assumption
  · split
    · assumption
    · exact h

theorem code_lt {form : LengthForm} {n : Nat} (h : form.Fits n) : form.code n < 128 := by
  cases form with
  | short => exact Nat.lt_of_le_of_lt h (by decide)
  | medium => exact (by decide : (126 : Nat) < 128)
  | long => exact (by decide : (127 : Nat) < 128)

end LengthForm

namespace WsFrame

/-- The first byte: the flags and the opcode. -/
def headByte (f : WsFrame) : UInt8 :=
  (f.fin.toNat * 128 + f.rsv1.toNat * 64 + f.rsv2.toNat * 32 + f.rsv3.toNat * 16
    + f.opcode.val).toUInt8

/-- The second byte: the mask flag and what the length form puts there. -/
def lengthByte (f : WsFrame) (form : LengthForm) : UInt8 :=
  (f.maskKey.isSome.toNat * 128 + form.code f.payload.length).toUInt8

def keyBytes : Option MaskKey → Bytes
  | none => []
  | some key => [key.k0, key.k1, key.k2, key.k3]

/-- The payload as it stands in the frame. -/
def sent (f : WsFrame) : Bytes :=
  match f.maskKey with
  | none => f.payload
  | some key => mask key f.payload

def encode (form : LengthForm) (f : WsFrame) : Bytes :=
  f.headByte :: f.lengthByte form ::
    (form.extended f.payload.length ++ (keyBytes f.maskKey ++ f.sent))

/-- The payload length and the bytes behind it. -/
def takeLength (code : Nat) (s : Bytes) : Option (Nat × Bytes) :=
  if code = 126 then if s.length < 2 then none else some (beNat (s.take 2), s.drop 2)
  else if code = 127 then if s.length < 8 then none else some (beNat (s.take 8), s.drop 8)
  else some (code, s)

/-- The masking key, if the frame has one, and the bytes behind it. -/
def takeKey (masked : Bool) (s : Bytes) : Option (Option MaskKey × Bytes) :=
  if masked then
    match s with
    | k0 :: k1 :: k2 :: k3 :: s => some (some ⟨k0, k1, k2, k3⟩, s)
    | _ => none
  else some (none, s)

/-- The first frame of a stream and what follows it; `none` as long as it is not whole. -/
def decode : Bytes → Option (WsFrame × Bytes)
  | h0 :: h1 :: s => do
      let (len, s) ← takeLength (h1.toNat % 128) s
      let (key, s) ← takeKey (128 ≤ h1.toNat) s
      if s.length < len then none
      else
        let payload := s.take len
        some ({
          fin := h0.toNat / 128 % 2 = 1
          rsv1 := h0.toNat / 64 % 2 = 1
          rsv2 := h0.toNat / 32 % 2 = 1
          rsv3 := h0.toNat / 16 % 2 = 1
          opcode := Fin.ofNat 16 h0.toNat
          maskKey := key
          payload := match key with
            | none => payload
            | some key => mask key payload }, s.drop len)
  | _ => none

-- ============================================================================
-- What has been written is read back
-- ============================================================================

/-- The flags and the opcode of a first byte. -/
theorem headByte_bits (f : WsFrame) :
    (f.headByte.toNat / 128 % 2 = 1 ↔ f.fin) ∧ (f.headByte.toNat / 64 % 2 = 1 ↔ f.rsv1) ∧
      (f.headByte.toNat / 32 % 2 = 1 ↔ f.rsv2) ∧ (f.headByte.toNat / 16 % 2 = 1 ↔ f.rsv3) ∧
      f.headByte.toNat % 16 = f.opcode.val := by
  have hop := f.opcode.isLt
  have h1 := f.fin.toNat_lt
  have h2 := f.rsv1.toNat_lt
  have h3 := f.rsv2.toNat_lt
  have h4 := f.rsv3.toNat_lt
  have hbyte : f.headByte.toNat = f.fin.toNat * 128 + f.rsv1.toNat * 64 + f.rsv2.toNat * 32
      + f.rsv3.toNat * 16 + f.opcode.val := Nat.mod_eq_of_lt (by omega)
  have hbit : ∀ b : Bool, b = true ↔ b.toNat = 1 := by decide
  rw [hbyte, hbit f.fin, hbit f.rsv1, hbit f.rsv2, hbit f.rsv3]
  omega

theorem lengthByte_bits {f : WsFrame} {form : LengthForm} (h : form.Fits f.payload.length) :
    (f.lengthByte form).toNat % 128 = form.code f.payload.length ∧
      (128 ≤ (f.lengthByte form).toNat ↔ f.maskKey.isSome) := by
  have hcode := LengthForm.code_lt h
  have hmask := f.maskKey.isSome.toNat_lt
  have hbyte : (f.lengthByte form).toNat =
      f.maskKey.isSome.toNat * 128 + form.code f.payload.length := Nat.mod_eq_of_lt (by omega)
  have hbit : f.maskKey.isSome = true ↔ f.maskKey.isSome.toNat = 1 :=
    (by decide : ∀ b : Bool, b = true ↔ b.toNat = 1) _
  rw [hbyte, hbit]
  omega

/-- A length is read as it was written. -/
theorem takeLength_extended {form : LengthForm} {n : Nat} (h : form.Fits n) (rest : Bytes) :
    takeLength (form.code n) (form.extended n ++ rest) = some (n, rest) := by
  cases form with
  | short =>
      have hn : n ≤ 125 := h
      rw [takeLength, LengthForm.code, LengthForm.extended, if_neg (by omega), if_neg (by omega)]
      rfl
  | medium =>
      have hlen := length_beBytes 2 n
      rw [takeLength, LengthForm.code, LengthForm.extended, if_pos rfl,
        if_neg (by rw [List.length_append]; omega), List.take_left' hlen, List.drop_left' hlen,
        beNat_beBytes h]
  | long =>
      have hlen := length_beBytes 8 n
      rw [takeLength, LengthForm.code, LengthForm.extended, if_neg (by decide), if_pos rfl,
        if_neg (by rw [List.length_append]; omega), List.take_left' hlen, List.drop_left' hlen,
        beNat_beBytes h]

@[simp] theorem length_sent (f : WsFrame) : f.sent.length = f.payload.length := by
  unfold sent
  split
  · rfl
  · exact length_mask _ _

/-- A mask is read as it was written. -/
theorem takeKey_keyBytes (key : Option MaskKey) (rest : Bytes) :
    takeKey key.isSome (keyBytes key ++ rest) = some (key, rest) := by
  cases key <;> rfl

/-- What has been written is read back, whatever follows it. -/
theorem decode_encode {f : WsFrame} {form : LengthForm} (h : form.Fits f.payload.length)
    (rest : Bytes) : decode (f.encode form ++ rest) = some (f, rest) := by
  obtain ⟨hfin, hrsv1, hrsv2, hrsv3, hop⟩ := headByte_bits f
  obtain ⟨hcode, hmasked⟩ := lengthByte_bits h
  have hsent := length_sent f
  have hlong : ¬ (f.sent ++ rest).length < f.payload.length := by
    rw [List.length_append]
    omega
  have hkey : decide (128 ≤ (f.lengthByte form).toNat) = f.maskKey.isSome := by
    rw [Bool.eq_iff_iff, decide_eq_true_iff]
    exact hmasked
  have hunmask : (match f.maskKey with
      | none => f.sent
      | some key => mask key f.sent) = f.payload := by
    unfold sent
    cases f.maskKey with
    | none => rfl
    | some key => exact mask_mask key f.payload
  rw [encode, List.cons_append, List.cons_append, List.append_assoc, List.append_assoc, decode,
    hcode, takeLength_extended h]
  simp only [Option.bind_eq_bind, Option.bind_some, hkey, takeKey_keyBytes]
  rw [if_neg hlong, List.take_left' hsent, List.drop_left' hsent, hunmask]
  simp only [hfin, hrsv1, hrsv2, hrsv3, Bool.decide_eq_true]
  have hopcode : Fin.ofNat 16 f.headByte.toNat = f.opcode := Fin.ext hop
  rw [hopcode]

-- ============================================================================
-- Nothing else is read
-- ============================================================================

/-- What is read as a length was written as one, in some form. -/
theorem takeLength_eq_some {code n : Nat} {s rest : Bytes} (hcode : code < 128)
    (h : takeLength code s = some (n, rest)) :
    ∃ form : LengthForm, form.Fits n ∧ form.code n = code ∧ s = form.extended n ++ rest := by
  unfold takeLength at h
  split at h
  · rename_i hmedium
    split at h
    · exact absurd h (by simp)
    · obtain ⟨rfl, rfl⟩ := Prod.mk.inj (Option.some.inj h)
      have hlen : (s.take 2).length = 2 := by
        rw [List.length_take]
        omega
      refine ⟨.medium, ?_, hmedium.symm, ?_⟩
      · have hlt := beNat_lt (s.take 2)
        rwa [hlen] at hlt
      · show s = beBytes 2 (beNat (s.take 2)) ++ s.drop 2
        have hback := beBytes_beNat (s.take 2)
        rw [hlen] at hback
        rw [hback, List.take_append_drop]
  · split at h
    · rename_i hlong
      split at h
      · exact absurd h (by simp)
      · obtain ⟨rfl, rfl⟩ := Prod.mk.inj (Option.some.inj h)
        have hlen : (s.take 8).length = 8 := by
          rw [List.length_take]
          omega
        refine ⟨.long, ?_, hlong.symm, ?_⟩
        · have hlt := beNat_lt (s.take 8)
          rwa [hlen] at hlt
        · show s = beBytes 8 (beNat (s.take 8)) ++ s.drop 8
          have hback := beBytes_beNat (s.take 8)
          rw [hlen] at hback
          rw [hback, List.take_append_drop]
    · obtain ⟨rfl, rfl⟩ := Prod.mk.inj (Option.some.inj h)
      exact ⟨.short, by show code ≤ 125; omega, rfl, rfl⟩

theorem takeKey_eq_some {masked : Bool} {s rest : Bytes} {key : Option MaskKey}
    (h : takeKey masked s = some (key, rest)) :
    key.isSome = masked ∧ s = keyBytes key ++ rest := by
  unfold takeKey at h
  split at h
  · rename_i hmasked
    split at h
    · obtain ⟨rfl, rfl⟩ := Prod.mk.inj (Option.some.inj h)
      exact ⟨hmasked.symm, rfl⟩
    · exact absurd h (by simp)
  · rename_i hmasked
    obtain ⟨rfl, rfl⟩ := Prod.mk.inj (Option.some.inj h)
    exact ⟨(Bool.eq_false_iff.mpr hmasked).symm, rfl⟩

/-- A byte is what its bits say. -/
theorem headByte_of_bits (h0 : UInt8) {f : WsFrame} (hfin : f.fin = decide (h0.toNat / 128 % 2 = 1))
    (hrsv1 : f.rsv1 = decide (h0.toNat / 64 % 2 = 1))
    (hrsv2 : f.rsv2 = decide (h0.toNat / 32 % 2 = 1))
    (hrsv3 : f.rsv3 = decide (h0.toNat / 16 % 2 = 1)) (hop : f.opcode = Fin.ofNat 16 h0.toNat) :
    f.headByte = h0 := by
  have hlt := h0.toNat_lt
  have hval : f.opcode.val = h0.toNat % 16 := by
    rw [hop]
    rfl
  have hbit : ∀ n : Nat, (decide (n % 2 = 1)).toNat = n % 2 := by
    intro n
    by_cases hn : n % 2 = 1
    · rw [decide_eq_true hn, hn]
      rfl
    · rw [decide_eq_false hn]
      show 0 = n % 2
      omega
  rw [← UInt8.toNat_inj]
  show (f.fin.toNat * 128 + f.rsv1.toNat * 64 + f.rsv2.toNat * 32 + f.rsv3.toNat * 16
    + f.opcode.val) % 256 = h0.toNat
  rw [hfin, hrsv1, hrsv2, hrsv3, hval, hbit, hbit, hbit, hbit]
  omega

theorem lengthByte_of_bits (h1 : UInt8) {f : WsFrame} {form : LengthForm}
    (hcode : form.code f.payload.length = h1.toNat % 128)
    (hmasked : f.maskKey.isSome = decide (128 ≤ h1.toNat)) : f.lengthByte form = h1 := by
  have hlt := h1.toNat_lt
  rw [← UInt8.toNat_inj]
  show (f.maskKey.isSome.toNat * 128 + form.code f.payload.length) % 256 = h1.toNat
  rw [hcode, hmasked]
  by_cases h : 128 ≤ h1.toNat
  · rw [decide_eq_true h]
    show (1 * 128 + h1.toNat % 128) % 256 = h1.toNat
    omega
  · rw [decide_eq_false h]
    show (0 * 128 + h1.toNat % 128) % 256 = h1.toNat
    omega

/-- Only frames are read, each in one of its forms. -/
theorem decode_eq_some {s rest : Bytes} {f : WsFrame} (h : decode s = some (f, rest)) :
    ∃ form : LengthForm, form.Fits f.payload.length ∧ s = f.encode form ++ rest := by
  match s with
  | [] => exact absurd h (by simp [decode])
  | [_] => exact absurd h (by simp [decode])
  | h0 :: h1 :: t =>
      rw [decode] at h
      obtain ⟨⟨len, t₁⟩, hlength, h⟩ := Option.bind_eq_some_iff.mp h
      obtain ⟨⟨key, t₂⟩, hkey, h⟩ := Option.bind_eq_some_iff.mp h
      dsimp only at h
      split at h
      · exact absurd h (by simp)
      · rename_i hlen
        obtain ⟨hf, rfl⟩ := Prod.mk.inj (Option.some.inj h)
        obtain ⟨form, hfits, hcode, rfl⟩ := takeLength_eq_some (Nat.mod_lt _ (by decide)) hlength
        obtain ⟨hmasked, rfl⟩ := takeKey_eq_some hkey
        have hmask : f.maskKey = key := by rw [← hf]
        have htake : (t₂.take len).length = len := by
          rw [List.length_take]
          omega
        have hpayload : f.payload.length = len := by
          rw [← hf]
          cases key with
          | none => exact htake
          | some key => exact (length_mask key _).trans htake
        have hhead : f.headByte = h0 := headByte_of_bits h0 (by rw [← hf]) (by rw [← hf])
          (by rw [← hf]) (by rw [← hf]) (by rw [← hf])
        have hsecond : f.lengthByte form = h1 :=
          lengthByte_of_bits h1 (by rw [hpayload]; exact hcode) (by rw [hmask]; exact hmasked)
        refine ⟨form, by rw [hpayload]; exact hfits, ?_⟩
        -- what stands in the frame is the payload under the key that was read
        have hsent : f.sent = t₂.take len := by
          unfold sent
          rw [hmask, ← hf]
          cases key with
          | none => rfl
          | some key => exact mask_mask key _
        rw [encode, hhead, hsecond, hpayload, hmask, hsent, List.cons_append, List.cons_append,
          List.append_assoc, List.append_assoc, List.take_append_drop]

end WsFrame

end FsBridge.Lib
