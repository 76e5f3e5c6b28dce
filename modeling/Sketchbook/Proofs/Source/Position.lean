import Mathlib.Algebra.Group.Int.Defs
import Mathlib.Data.String.Basic
import Sketchbook.Proofs.Text.Lines

/-! Positions in a text count its bytes. Reading a byte, counting on and cutting a part out can
each go wrong at a position, but none of them does where a character starts. Of the bytes of a
longer character none is taken for a sign, so what looks for signs passes over all of them. -/
namespace Sketchbook.Position
open Text

inductive Fault where
  | outOfRange
  | overflow
  | offBoundary
  | reversed
  deriving DecidableEq, Repr

def byteAt (bytes : Bytes) (i : Nat) : Except Fault UInt8 :=
  match bytes[i]? with
  | some b => .ok b
  | none => .error .outOfRange

def IsPair (bytes : Bytes) (i : Nat) (first second : Char) : Prop :=
  bytes[i]? = some first.toUInt8 ∧ bytes[i + 1]? = some second.toUInt8

instance (bytes : Bytes) (i : Nat) (first second : Char) :
    Decidable (IsPair bytes i first second) :=
  inferInstanceAs (Decidable (bytes[i]? = some first.toUInt8 ∧ bytes[i + 1]? = some second.toUInt8))

def checkPosition (i : Nat) : Except Fault Unit :=
  if i < 2 ^ 32 then .ok () else .error .overflow

def checkDepth (depth : Int) : Except Fault Unit :=
  if -2 ^ 31 ≤ depth ∧ depth < 2 ^ 31 then .ok () else .error .overflow

def slice (s : String) (start stop : Nat) : Except Fault String :=
  if stop < start then .error .reversed
  else if s.utf8ByteSize < stop then .error .outOfRange
  else if h : (⟨start⟩ : String.Pos.Raw).IsValid s ∧ (⟨stop⟩ : String.Pos.Raw).IsValid s then
    .ok (String.extract (⟨⟨start⟩, h.1⟩ : s.Pos) ⟨⟨stop⟩, h.2⟩)
  else .error .offBoundary

def first? (c : Char) : List Char → Option Nat
  | [] => none
  | d :: rest => if d = c then some 0 else (first? c rest).map (d.utf8Size + ·)

def last? (c : Char) : List Char → Option Nat
  | [] => none
  | d :: rest => ((last? c rest).map (d.utf8Size + ·)).or (if d = c then some 0 else none)

theorem ok_bind {α β : Type} (a : α) (f : α → Except Fault β) : (.ok a >>= f) = f a := rfl

theorem exists_of_bind {α β : Type} {x : Except Fault α} {f : α → Except Fault β} {r : β}
    (h : (x >>= f) = .ok r) : ∃ a, x = .ok a ∧ f a = .ok r := by
  cases x with
  | error fault => contradiction
  | ok a => exact ⟨a, rfl, h⟩

theorem byteAt_eq_ok_iff {bytes : Bytes} {i : Nat} {b : UInt8} :
    byteAt bytes i = .ok b ↔ bytes[i]? = some b := by
  unfold byteAt
  cases bytes[i]? <;> simp

theorem checkPosition_eq {i : Nat} (hi : i < 2 ^ 32) : checkPosition i = .ok () := if_pos hi

theorem checkDepth_eq {depth : Int} (hdepth : -2 ^ 31 ≤ depth ∧ depth < 2 ^ 31) :
    checkDepth depth = .ok () := if_pos hdepth

/-! ### Where characters start -/

/-- A character starts at the position, and `rest` is the text from there on, or the text ends at
the position and `rest` is empty. -/
def IsAt (s : String) (i : Nat) (rest : List Char) : Prop :=
  ∃ front, s.toList = front ++ rest ∧ String.utf8Len front = i

variable {s : String} {i : Nat} {c : Char} {cs rest : List Char}

theorem isAt_zero (s : String) : IsAt s 0 s.toList := ⟨[], rfl, rfl⟩

theorem IsAt.append (h : IsAt s i (cs ++ rest)) : IsAt s (i + String.utf8Len cs) rest := by
  obtain ⟨front, hs, rfl⟩ := h
  exact ⟨front ++ cs, by rw [hs, List.append_assoc], String.utf8Len_append front cs⟩

theorem IsAt.cons (h : IsAt s i (c :: rest)) : IsAt s (i + c.utf8Size) rest := by
  have hsize : String.utf8Len [c] = c.utf8Size := by simp
  have hone : IsAt s i ([c] ++ rest) := h
  exact hsize ▸ hone.append

theorem length_flatMap_utf8EncodeChar (cs : List Char) :
    (cs.flatMap String.utf8EncodeChar).length = String.utf8Len cs := by
  induction cs with
  | nil => rfl
  | cons c cs ih => simp [ih, Nat.add_comm]

theorem length_encode (s : String) : (encode s).length = String.utf8Len s.toList := by
  rw [encode_eq, length_flatMap_utf8EncodeChar]

theorem IsAt.add_utf8Len (h : IsAt s i rest) : i + String.utf8Len rest = (encode s).length := by
  obtain ⟨front, hs, rfl⟩ := h
  rw [length_encode, hs, String.utf8Len_append]

theorem IsAt.utf8Len_le (h : IsAt s i cs) {j : Nat} (hrest : IsAt s j rest) (hle : i ≤ j) :
    String.utf8Len rest ≤ String.utf8Len cs := by
  have hwhole := h.add_utf8Len
  have hback := hrest.add_utf8Len
  omega

theorem IsAt.le_length (h : IsAt s i rest) : i ≤ (encode s).length := by
  have hlength := h.add_utf8Len
  omega

theorem isAt_length (s : String) : IsAt s (encode s).length [] :=
  ⟨s.toList, (List.append_nil _).symm, (length_encode s).symm⟩

theorem IsAt.eq_length (h : IsAt s i []) : i = (encode s).length := h.add_utf8Len

theorem IsAt.lt_length (h : IsAt s i (c :: rest)) : i < (encode s).length := by
  have hlength := h.cons.add_utf8Len
  have hsize := c.utf8Size_pos
  omega

theorem IsAt.getElem?_add (h : IsAt s i rest) (k : Nat) :
    (encode s)[i + k]? = (rest.flatMap String.utf8EncodeChar)[k]? := by
  obtain ⟨front, hs, rfl⟩ := h
  rw [encode_eq, hs, List.flatMap_append, ← length_flatMap_utf8EncodeChar front,
    List.getElem?_append_right (by omega), Nat.add_sub_cancel_left]

/-! ### The bytes of a character -/

def firstByte (c : Char) : UInt8 :=
  (String.utf8EncodeChar c).head String.utf8EncodeChar_ne_nil

theorem utf8EncodeChar_eq_cons (c : Char) :
    String.utf8EncodeChar c = firstByte c :: (String.utf8EncodeChar c).tail :=
  (List.cons_head_tail _).symm

/-- A character below 128 is written as one byte. -/
theorem utf8EncodeChar_of_lt (hc : c.toNat < 0x80) : String.utf8EncodeChar c = [c.toUInt8] := by
  refine String.utf8EncodeChar_eq_singleton (Char.utf8Size_eq_one_iff.mpr ?_)
  rw [UInt32.le_iff_toNat_le]
  exact Nat.le_of_lt_succ hc

theorem utf8Size_of_lt (hc : c.toNat < 0x80) : c.utf8Size = 1 := by
  rw [← String.length_utf8EncodeChar, utf8EncodeChar_of_lt hc, List.length_singleton]

/-- A sign takes up one byte. -/
theorem IsAt.sign (h : IsAt s i (c :: rest)) (hc : c.toNat < 0x80) : IsAt s (i + 1) rest :=
  utf8Size_of_lt hc ▸ h.cons

/-- A sign is told from any other character by the first byte. -/
theorem firstByte_eq_iff {sign : Char} (hsign : sign.toNat < 0x80) :
    firstByte c = sign.toUInt8 ↔ c = sign := by
  have hvalue : sign.toUInt8.toNat = sign.toNat :=
    Nat.mod_eq_of_lt (Nat.lt_trans hsign (by decide))
  constructor
  · intro h
    have hmem : sign.toUInt8 ∈ String.utf8EncodeChar c := h ▸ List.head_mem _
    have hc := toNat_of_mem_utf8EncodeChar hmem (by omega)
    exact Char.toNat_inj.mp (hc.trans hvalue)
  · rintro rfl
    simp [firstByte, utf8EncodeChar_of_lt hsign]

theorem IsAt.getElem? (h : IsAt s i rest) : (encode s)[i]? = rest.head?.map firstByte := by
  have hbyte := h.getElem?_add 0
  rw [Nat.add_zero] at hbyte
  rw [hbyte]
  cases rest with
  | nil => rfl
  | cons c rest => rw [List.flatMap_cons, utf8EncodeChar_eq_cons]; rfl

theorem IsAt.byteAt (h : IsAt s i (c :: rest)) : byteAt (encode s) i = .ok (firstByte c) := by
  rw [Position.byteAt, h.getElem?]
  rfl

theorem IsAt.getElem?_eq_some_iff (h : IsAt s i rest) {sign : Char} (hsign : sign.toNat < 0x80) :
    (encode s)[i]? = some sign.toUInt8 ↔ rest.head? = some sign := by
  rw [h.getElem?]
  cases rest with
  | nil => simp
  | cons c rest => simp [firstByte_eq_iff hsign]

theorem IsAt.isPair_iff (h : IsAt s i (c :: rest)) {first second : Char}
    (hfirst : first.toNat < 0x80) (hsecond : second.toNat < 0x80) :
    IsPair (encode s) i first second ↔ c = first ∧ ∃ tail, rest = second :: tail := by
  have hc : (encode s)[i]? = some first.toUInt8 ↔ c = first := by
    simpa using h.getElem?_eq_some_iff hfirst
  rw [IsPair, hc, ← List.head?_eq_some_iff]
  exact and_congr_right fun hc => ((hc ▸ h).sign (hc ▸ hfirst)).getElem?_eq_some_iff hsecond

theorem ne_sign {b : UInt8} (hb : 0x80 ≤ b.toNat) {sign : Char} (hsign : sign.toNat < 0x80) :
    b ≠ sign.toUInt8 := by
  rintro rfl
  have hvalue : sign.toUInt8.toNat = sign.toNat :=
    Nat.mod_eq_of_lt (Nat.lt_trans hsign (by decide))
  omega

theorem not_isPair {b : UInt8} (hb : 0x80 ≤ b.toNat) (hbyte : (encode s)[i]? = some b)
    {first second : Char} (hfirst : first.toNat < 0x80) :
    ¬ IsPair (encode s) i first second := by
  rintro ⟨hpair, -⟩
  rw [hbyte] at hpair
  exact ne_sign hb hfirst (Option.some.inj hpair)

/-- Behind its first byte a character has no byte below 128. -/
theorem IsAt.exists_byte (h : IsAt s i (c :: rest)) {k : Nat} (hfirst : k ≠ 0)
    (hk : k < c.utf8Size) : ∃ b, (encode s)[i + k]? = some b ∧ 0x80 ≤ b.toNat := by
  have hlength : k < (String.utf8EncodeChar c).length := by rwa [String.length_utf8EncodeChar]
  refine ⟨(String.utf8EncodeChar c)[k], ?_, Nat.le_of_not_lt fun hlow => ?_⟩
  · rw [h.getElem?_add, List.flatMap_cons, List.getElem?_append_left hlength,
      List.getElem?_eq_getElem hlength]
  · have hc := toNat_of_mem_utf8EncodeChar (List.getElem_mem hlength) hlow
    rw [utf8EncodeChar_of_lt (hc ▸ hlow), List.length_singleton] at hlength
    omega

/-- What steps over each byte that no sign has steps over the rest of a character. -/
theorem IsAt.pass {α : Type} (h : IsAt s i (c :: rest)) (f : Nat → α)
    (hf : ∀ j b, (encode s)[j]? = some b → 0x80 ≤ b.toNat → f j = f (j + 1)) :
    f (i + 1) = f (i + c.utf8Size) := by
  have hsteps : ∀ k, k < c.utf8Size → f (i + 1) = f (i + (k + 1)) := by
    intro k hk
    induction k with
    | zero => rfl
    | succ k ih =>
      obtain ⟨b, hbyte, hb⟩ := h.exists_byte (Nat.succ_ne_zero k) hk
      rw [ih (Nat.lt_of_succ_lt hk), hf _ b hbyte hb, Nat.add_assoc]
  have hsize := c.utf8Size_pos
  rw [hsteps (c.utf8Size - 1) (by omega), Nat.sub_add_cancel hsize]

/-! ### Parts of a text -/

/-- A part from the start of one character to the start of another can be cut out. -/
theorem IsAt.slice_eq (h : IsAt s i (cs ++ rest)) :
    slice s i (i + String.utf8Len cs) = .ok (String.ofList cs) := by
  obtain ⟨front, hs, rfl⟩ := h
  have htext : s = String.ofList front ++ (String.ofList cs ++ String.ofList rest) := by
    rw [← String.ofList_toList (s := s), hs, String.ofList_append, String.ofList_append]
  have hstart : (⟨String.utf8Len front⟩ : String.Pos.Raw) = (String.ofList front).rawEndPos := by
    rw [String.rawEndPos, String.utf8ByteSize_ofList]
  have hstop : (⟨String.utf8Len front + String.utf8Len cs⟩ : String.Pos.Raw) =
      (String.ofList front ++ String.ofList cs).rawEndPos := by
    rw [String.rawEndPos, String.utf8ByteSize_append, String.utf8ByteSize_ofList,
      String.utf8ByteSize_ofList]
  have hvalid : (⟨String.utf8Len front⟩ : String.Pos.Raw).IsValid s ∧
      (⟨String.utf8Len front + String.utf8Len cs⟩ : String.Pos.Raw).IsValid s := by
    refine ⟨String.Pos.Raw.isValid_iff_exists_append.mpr ⟨_, _, htext, hstart⟩,
      String.Pos.Raw.isValid_iff_exists_append.mpr ⟨_, String.ofList rest, ?_, hstop⟩⟩
    rw [htext, String.append_assoc]
  obtain ⟨hle, hcopy⟩ : ∃ hle : (⟨_, hvalid.1⟩ : s.Pos) ≤ ⟨_, hvalid.2⟩,
      (s.slice _ _ hle).copy = String.ofList cs := by
    refine String.copy_slice_eq_iff_splits.mpr
      ⟨String.ofList front, String.ofList rest, ⟨htext, hstart⟩, ⟨?_, hstop⟩⟩
    rw [htext, String.append_assoc]
  have hinside : ¬ s.utf8ByteSize < String.utf8Len front + String.utf8Len cs := by
    have hbound := hvalid.2.le_utf8ByteSize
    exact Nat.not_lt.mpr hbound
  rw [slice, if_neg (by omega), if_neg hinside, dif_pos hvalid,
    String.extract_eq_copy_slice _ _ hle, hcopy]

/-- What is cut out stands where the cut starts. -/
theorem exists_of_slice {start stop : Nat} {t : String} (h : slice s start stop = .ok t) :
    ∃ after, IsAt s start (t.toList ++ after) := by
  unfold slice at h
  split at h
  · contradiction
  split at h
  · contradiction
  split at h
  · next horder hbound hvalid =>
    have hle : (⟨⟨start⟩, hvalid.1⟩ : s.Pos) ≤ ⟨⟨stop⟩, hvalid.2⟩ := Nat.le_of_not_lt horder
    rw [String.extract_eq_copy_slice _ _ hle] at h
    obtain ⟨front, after, hsplits, -⟩ :=
      String.copy_slice_eq_iff_splits.mp ⟨hle, Except.ok.inj h⟩
    refine ⟨after.toList, front.toList, ?_, ?_⟩
    · rw [hsplits.eq_append, String.toList_append, String.toList_append]
    · rw [← String.utf8ByteSize_ofList, String.ofList_toList]
      exact (congrArg String.Pos.Raw.byteIdx hsplits.offset_eq_rawEndPos).symm
  · contradiction

/-! ### Looking for a character -/

theorem head?_of_first? (h : first? c cs = some 0) : cs.head? = some c := by
  cases cs with
  | nil => contradiction
  | cons d rest =>
    rw [first?] at h
    split at h
    · next hd => rw [hd, List.head?_cons]
    · obtain ⟨n, -, hn⟩ := Option.map_eq_some_iff.mp h
      have hsize := d.utf8Size_pos
      omega

theorem first?_eq (c : Char) (cs : List Char) : first? c cs =
    if c ∈ cs then some (String.utf8Len (cs.takeWhile (· ≠ c))) else none := by
  induction cs with
  | nil => rfl
  | cons d rest ih =>
    by_cases hd : d = c
    · simp [first?, hd]
    · by_cases hmem : c ∈ rest <;> simp [first?, ih, hd, Ne.symm hd, hmem, Nat.add_comm]

/-- The text from the first `c` on. -/
theorem IsAt.first? (h : IsAt s i cs) {n : Nat} (hn : first? c cs = some n) :
    c ∈ cs ∧ IsAt s (i + n) (cs.dropWhile (· ≠ c)) := by
  rw [first?_eq] at hn
  split at hn
  · next hmem =>
    obtain rfl := Option.some.inj hn
    refine ⟨hmem, ?_⟩
    rw [← List.takeWhile_append_dropWhile (p := (· ≠ c)) (l := cs)] at h
    exact h.append
  · contradiction

theorem not_mem_of_first? (h : Position.first? c cs = none) : c ∉ cs := by
  rw [first?_eq] at h
  split at h
  · contradiction
  · assumption

theorem last?_append (c : Char) (cs more : List Char) : last? c (cs ++ more) =
    ((last? c more).map (String.utf8Len cs + ·)).or (last? c cs) := by
  induction cs with
  | nil => cases hmore : last? c more <;> simp [last?, hmore]
  | cons d cs ih =>
    rw [List.cons_append, last?, ih, last?]
    cases hmore : last? c more <;> cases hlast : last? c cs <;> simp <;> omega

theorem last?_lt {n : Nat} (h : last? c cs = some n) : n < String.utf8Len cs := by
  induction cs generalizing n with
  | nil => contradiction
  | cons d cs ih =>
    have hsize := d.utf8Size_pos
    rw [String.utf8Len_cons]
    rw [last?] at h
    cases hlast : last? c cs with
    | none =>
      rw [hlast, Option.map_none, Option.none_or] at h
      split at h
      · cases h
        omega
      · contradiction
    | some m =>
      rw [hlast, Option.map_some, Option.some_or] at h
      have hm := ih hlast
      cases h
      omega

/-- The last `c` behind a mark is the last in the text behind it. -/
theorem filter_last? {mark : Char} (hmark : mark ≠ c) (front cs : List Char) :
    (last? c (front ++ mark :: cs)).filter (String.utf8Len front < ·) =
      (last? c cs).map (String.utf8Len front + mark.utf8Size + ·) := by
  have hsize := mark.utf8Size_pos
  rw [last?_append, last?, if_neg hmark]
  cases hlast : last? c cs with
  | none =>
    cases hfront : last? c front with
    | none => rfl
    | some n => simpa using (last?_lt hfront).le
  | some n =>
    simp [hsize, Nat.add_assoc]

end Sketchbook.Position
