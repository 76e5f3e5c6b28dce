import Sketchbook.Text.Bytes

/-! The lines of a file. Texts in which no line ends early are the lines of the file they are
written to, and no byte of a longer character can be taken for a line break. Any bytes are cut
into lines in one way only. -/
namespace Sketchbook.Text

/-- A byte below 128 is a character by itself. -/
theorem toNat_of_mem_utf8EncodeChar {c : Char} {b : UInt8} (h : b ∈ String.utf8EncodeChar c)
    (hb : b.toNat < 0x80) : c.toNat = b.toNat := by
  have hc : c.val.toNat = c.toNat := rfl
  unfold String.utf8EncodeChar at h
  simp only [hc] at h
  split at h
  · obtain rfl := List.mem_singleton.mp h
    rw [UInt8.toNat_ofNat']
    omega
  -- every byte of a longer character has its highest bit set
  have hhigh {n : Nat} (hn : 0x80 ≤ n ∧ n < 256) (hsame : b = UInt8.ofNat n) : False := by
    rw [hsame, UInt8.toNat_ofNat'] at hb
    omega
  split at h
  · simp only [List.mem_cons, List.not_mem_nil, or_false] at h
    rcases h with h | h <;> exact (hhigh (by omega) h).elim
  split at h
  · simp only [List.mem_cons, List.not_mem_nil, or_false] at h
    rcases h with h | h | h <;> exact (hhigh (by omega) h).elim
  · simp only [List.mem_cons, List.not_mem_nil, or_false] at h
    rcases h with h | h | h | h <;> exact (hhigh (by omega) h).elim

theorem encode_eq (s : String) : encode s = s.toList.flatMap String.utf8EncodeChar := by
  have h : s.toUTF8 = s.toList.utf8Encode := by
    rw [← String.toByteArray_ofList, String.ofList_toList]
    rfl
  rw [encode, h, List.utf8Encode, List.toList_data_toByteArray]

theorem encode_injective {s t : String} (h : encode s = encode t) : s = t := by
  simpa using congrArg decode? h

theorem encode_append (s t : String) : encode (s ++ t) = encode s ++ encode t := by
  simp [encode_eq, List.flatMap_append]

/-- A character below 128 that is not in a text is not among its bytes. -/
theorem not_mem_encode {s : String} {b : UInt8} (hb : b.toNat < 0x80)
    (h : ∀ c ∈ s.toList, c.toNat ≠ b.toNat) : b ∉ encode s := by
  rw [encode_eq, List.mem_flatMap]
  rintro ⟨c, hc, hmem⟩
  exact h c hc (toNat_of_mem_utf8EncodeChar hmem hb)

theorem not_mem_toList {s : String} {c : Char} {b : UInt8} (hc : String.utf8EncodeChar c = [b])
    (h : b ∉ encode s) : c ∉ s.toList := by
  intro hmem
  rw [encode_eq, List.mem_flatMap] at h
  exact h ⟨c, hmem, by simp [hc]⟩

def NoBreak (cs : List Char) : Prop := ∀ c ∈ cs, c ≠ '\n' ∧ c ≠ '\r'

instance (cs : List Char) : Decidable (NoBreak cs) :=
  List.decidableBAll (fun c : Char => c ≠ '\n' ∧ c ≠ '\r') cs

theorem NoBreak.append {cs ds : List Char} (hcs : NoBreak cs) (hds : NoBreak ds) :
    NoBreak (cs ++ ds) :=
  List.forall_mem_append.mpr ⟨hcs, hds⟩

theorem NoBreak.cons {c : Char} {cs : List Char} (hc : c ≠ '\n' ∧ c ≠ '\r') (hcs : NoBreak cs) :
    NoBreak (c :: cs) :=
  List.forall_mem_cons.mpr ⟨hc, hcs⟩

theorem NoBreak.not_mem_encode {s : String} (h : NoBreak s.toList) :
    10 ∉ encode s ∧ 13 ∉ encode s := by
  constructor <;> refine Text.not_mem_encode (by decide) fun c hc hsame => ?_
  · exact (h c hc).1 (Char.toNat_inj.mp hsame)
  · exact (h c hc).2 (Char.toNat_inj.mp hsame)

theorem cutLines_append {bytes : Bytes} (h : 10 ∉ bytes) (line rest : Bytes) :
    cutLines line (bytes ++ rest) = cutLines (bytes.reverse ++ line) rest := by
  induction bytes generalizing line with
  | nil => rfl
  | cons b bytes ih =>
    rw [List.mem_cons, not_or] at h
    rw [List.cons_append, cutLines, ih h.2, List.reverse_cons, List.append_assoc,
      List.singleton_append]
    exact fun hb => h.1 hb.symm

/-- Bytes behind the last line feed are a line of their own. -/
theorem lines_of_not_mem {bytes : Bytes} (hfeed : 10 ∉ bytes) (hbytes : bytes ≠ []) :
    lines bytes = [bytes] := by
  have hcut := cutLines_append hfeed [] []
  rw [List.append_nil, List.append_nil] at hcut
  simp [lines, hcut, cutLines, hbytes]

theorem dropReturn_of_not_mem {line : Bytes} (h : 13 ∉ line) : dropReturn line = line := by
  cases line with
  | nil => rfl
  | cons b line =>
    rw [dropReturn]
    rintro _ ⟨⟩
    exact h List.mem_cons_self

/-- The bytes up to a line feed are a line if no other line break is among them. -/
theorem lines_append {bytes : Bytes} (hfeed : 10 ∉ bytes) (hreturn : 13 ∉ bytes) (rest : Bytes) :
    lines (bytes ++ 10 :: rest) = bytes :: lines rest := by
  rw [lines, cutLines_append hfeed, List.append_nil, cutLines,
    dropReturn_of_not_mem (by rwa [List.mem_reverse]), List.reverse_reverse]
  rfl

/-- Texts without line breaks that are written one a line are read as they are. -/
theorem lines_join_append {rows : List String} (h : ∀ row ∈ rows, NoBreak row.toList)
    (rest : Bytes) :
    lines (encode (String.join (rows.map (· ++ "\n"))) ++ rest) =
      rows.map encode ++ lines rest := by
  induction rows with
  | nil => rfl
  | cons row more ih =>
    obtain ⟨hrow, hmore⟩ := List.forall_mem_cons.mp h
    obtain ⟨hfeed, hreturn⟩ := hrow.not_mem_encode
    have hbreak : encode "\n" = [10] := rfl
    rw [List.map_cons, String.join_cons, encode_append, encode_append, hbreak, List.append_assoc,
      List.append_assoc, List.singleton_append, lines_append hfeed hreturn, ih hmore,
      List.map_cons, List.cons_append]

def IsRows (rows : List String) (text : String) : Prop :=
  text = String.join (rows.map (· ++ "\n")) ∨ text ++ "\n" = String.join (rows.map (· ++ "\n"))

theorem IsRows.lines_encode {rows : List String} {text : String} (h : IsRows rows text)
    (hrows : ∀ row ∈ rows, NoBreak row.toList ∧ row ≠ "") :
    lines (encode text) = rows.map encode := by
  have hbreaks (row : String) (hrow : row ∈ rows) := (hrows row hrow).1
  rcases h with rfl | h
  · simpa [lines, cutLines] using lines_join_append hbreaks []
  · rcases List.eq_nil_or_concat rows with rfl | ⟨init, last, rfl⟩
    · simp at h
    rw [List.concat_eq_append] at hrows hbreaks h ⊢
    obtain ⟨hbreak, hlast⟩ := hrows last (by simp)
    have hinit (row : String) (hrow : row ∈ init) := hbreaks row (List.mem_append_left _ hrow)
    have htext : text = String.join (init.map (· ++ "\n")) ++ last := by
      refine String.append_left_inj "\n" |>.mp ?_
      rw [h, List.map_append, String.join_append, String.append_assoc]
      simp
    have hbytes : encode last ≠ [] := fun hnil => hlast (encode_injective hnil)
    rw [htext, encode_append, lines_join_append hinit,
      lines_of_not_mem hbreak.not_mem_encode.1 hbytes, List.map_append]
    rfl

/-- The rows are the lines that the bytes are cut into. A line feed ends a row and is dropped with
one carriage return before it; what stands behind the last line feed is a row as it is. -/
inductive IsCut : Bytes → List Bytes → Prop where
  | nil : IsCut [] []
  | last {row : Bytes} (hfeed : 10 ∉ row) (hrow : row ≠ []) : IsCut row [row]
  | feed {row rest : Bytes} {rows : List Bytes} (hfeed : 10 ∉ row)
      (hreturn : row.getLast? ≠ some 13) (h : IsCut rest rows) :
      IsCut (row ++ 10 :: rest) (row :: rows)
  | returnFeed {row rest : Bytes} {rows : List Bytes} (hfeed : 10 ∉ row) (h : IsCut rest rows) :
      IsCut (row ++ 13 :: 10 :: rest) (row :: rows)

theorem dropReturn_reverse {row : Bytes} (h : row.getLast? ≠ some 13) :
    dropReturn row.reverse = row.reverse := by
  unfold dropReturn
  split
  · next line hline =>
    rw [← List.head?_reverse, hline] at h
    contradiction
  · rfl

theorem IsCut.lines_eq {bytes : Bytes} {rows : List Bytes} (h : IsCut bytes rows) :
    lines bytes = rows := by
  induction h with
  | nil => rfl
  | last hfeed hrow => exact lines_of_not_mem hfeed hrow
  | feed hfeed hreturn h ih =>
    rw [lines, cutLines_append hfeed, List.append_nil, cutLines, dropReturn_reverse hreturn,
      List.reverse_reverse]
    exact congrArg _ ih
  | @returnFeed row rest rows hfeed h ih =>
    have hcut := cutLines_append hfeed [] (13 :: 10 :: rest)
    rw [List.append_nil] at hcut
    rw [lines, hcut, cutLines, cutLines, dropReturn, List.reverse_reverse]
    · exact congrArg _ ih
    · decide

/-- All bytes can be cut into lines. -/
theorem exists_isCut (bytes : Bytes) : ∃ rows, IsCut bytes rows := by
  by_cases hfeed : 10 ∈ bytes
  · obtain ⟨row, rest, hsplit, hrow⟩ := List.eq_append_cons_of_mem hfeed
    have hshorter : rest.length < bytes.length := by
      rw [hsplit, List.length_append, List.length_cons]
      omega
    obtain ⟨rows, hrows⟩ := exists_isCut rest
    subst hsplit
    by_cases hreturn : row.getLast? = some 13
    · obtain ⟨line, rfl⟩ := List.getLast?_eq_some_iff.mp hreturn
      rw [List.append_assoc]
      exact ⟨_, .returnFeed (fun hmem => hrow (List.mem_append_left _ hmem)) hrows⟩
    · exact ⟨_, .feed hrow hreturn hrows⟩
  · by_cases hrow : bytes = []
    · exact ⟨[], hrow ▸ .nil⟩
    · exact ⟨[bytes], .last hfeed hrow⟩
termination_by bytes.length

/-- The lines of a file are the only rows that its bytes are cut into. -/
theorem isCut_iff {bytes : Bytes} {rows : List Bytes} : IsCut bytes rows ↔ rows = lines bytes := by
  constructor
  · intro h
    exact h.lines_eq.symm
  · rintro rfl
    obtain ⟨rows, hrows⟩ := exists_isCut bytes
    rw [hrows.lines_eq]
    exact hrows

end Sketchbook.Text
