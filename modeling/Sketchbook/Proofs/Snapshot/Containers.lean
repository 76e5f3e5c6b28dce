import Sketchbook.Proofs.Snapshot.Lexeme

/-! Lists and objects are read however they are spelled. Every reader takes what stands for its
value off the front of a text, whatever stands behind it. What an object has gathered at some point
depends on which of its fields have been met, so their order does not matter in the end. -/
namespace Sketchbook.Snapshot

/-- The reader takes the value off the front of every text that starts with the spelling. -/
def Reads {α : Type} (reader : Reader α) (spelling : Spelling) (a : α) : Prop :=
  ∀ cs rest, spelling cs → EndsNumber rest → reader (cs ++ rest) = .ok (a, rest)

def Opens (spelling : Spelling) : Prop :=
  ∀ cs, spelling cs → ∃ c more, cs = c :: more ∧ isSpace c = false ∧ c ≠ ']' ∧ c ≠ '\x7d'

theorem IsPadding.endsNumber {pad rest : List Char} (h : IsPadding pad) (hrest : EndsNumber rest) :
    EndsNumber (pad ++ rest) := by
  cases pad with
  | nil => exact hrest
  | cons c more =>
    rintro _ ⟨⟩
    rcases h c List.mem_cons_self with rfl | rfl <;> decide

theorem endsNumber_nil : EndsNumber [] := by
  rintro c ⟨⟩

theorem endsNumber_cons {c : Char} (h : isDigit c = false ∧ c ≠ '.' ∧ c ≠ 'e' ∧ c ≠ 'E')
    (rest : List Char) : EndsNumber (c :: rest) := by
  rintro _ ⟨⟩
  exact h

/-- Behind the padding before an entry a reader finds the entry. -/
theorem Opens.skipSpace_padded {spelling : Spelling} (h : Opens spelling) {cs : List Char}
    (hcs : Padded spelling cs) (rest : List Char) :
    ∃ c more, spelling (c :: more) ∧ skipSpace (cs ++ rest) = c :: (more ++ rest) ∧
      c ≠ ']' ∧ c ≠ '\x7d' := by
  obtain ⟨hpad, hentry⟩ := hcs
  obtain ⟨c, more, rfl, hspace, hlist, hobject⟩ := h _ hentry
  refine ⟨c, more, hentry, ?_, hlist, hobject⟩
  rw [List.append_assoc, List.cons_append, hpad.skipSpace_cons hspace]

theorem SpellsFurther.endsNumber {entries : List Spelling} {cs rest : List Char}
    (h : SpellsFurther entries cs) (hrest : EndsNumber rest) : EndsNumber (cs ++ rest) := by
  cases h with
  | nil hpad => exact hpad.endsNumber hrest
  | cons hpad =>
    rw [List.append_assoc]
    exact hpad.endsNumber (endsNumber_cons (by decide) _)

theorem SpellsFurther.length_le {entries : List Spelling} {cs : List Char}
    (h : SpellsFurther entries cs) : entries.length ≤ cs.length := by
  induction h with
  | nil => exact Nat.zero_le _
  | cons _ _ _ ih =>
    simp only [List.length_append, List.length_cons]
    omega

/-! ### Lists -/

section Lists
variable {α : Type} {item : Reader α} {spells : α → Spelling} {entry : Spelling}
  {cs rest : List Char} {a : α}

theorem nextElement_first (hopens : Opens entry) (hread : Reads item entry a)
    (hcs : Padded entry cs) (hrest : EndsNumber rest) :
    nextElement item true (cs ++ rest) = .ok (some a, rest) := by
  obtain ⟨c, more, hentry, hskip, hend, -⟩ := hopens.skipSpace_padded hcs rest
  have hitem := hread _ rest hentry hrest
  rw [List.cons_append] at hitem
  simp [nextElement.eq_def, hskip, hitem, Except.map]

theorem nextElement_comma {pad : List Char} (hpad : IsPadding pad) (hopens : Opens entry)
    (hread : Reads item entry a) (hcs : Padded entry cs) (hrest : EndsNumber rest) :
    nextElement item false (pad ++ ',' :: (cs ++ rest)) = .ok (some a, rest) := by
  obtain ⟨c, more, hentry, hskip, hend, -⟩ := hopens.skipSpace_padded hcs rest
  have hitem := hread _ rest hentry hrest
  rw [List.cons_append] at hitem
  simp [nextElement.eq_def, hpad.skipSpace_cons (c := ',') rfl, hskip, hend, hitem, Except.map]

theorem elements_next {first : Bool} (fuel : Nat)
    (h : nextElement item first cs = .ok (some a, rest)) :
    elements item (fuel + 1) first cs =
      (elements item fuel false rest).map fun (more, rest) => (a :: more, rest) := by
  rw [elements, h]
  rfl

theorem elements_end {pad : List Char} (hpad : IsPadding pad) {first : Bool} (fuel : Nat) :
    elements item (fuel + 1) first (pad ++ ']' :: rest) = .ok ([], rest) := by
  simp [elements, nextElement, closeList, hpad.skipSpace_cons (c := ']') rfl,
    Snapshot.skipSpace_cons (c := ']') rfl, bind, Except.bind]

theorem elements_further (hopens : ∀ a, Opens (spells a)) (hread : ∀ a, Reads item (spells a) a)
    {items : List α} (hcs : SpellsFurther (items.map spells) cs) {fuel : Nat}
    (hfuel : items.length < fuel) :
    elements item fuel false (cs ++ ']' :: rest) = .ok (items, rest) := by
  induction items generalizing cs fuel with
  | nil =>
    obtain ⟨fuel, rfl⟩ := Nat.exists_eq_add_one.mpr hfuel
    obtain ⟨hpad⟩ := hcs
    exact elements_end hpad fuel
  | cons a more ih =>
    obtain ⟨fuel, rfl⟩ := Nat.exists_eq_add_one.mpr (Nat.zero_lt_of_lt hfuel)
    obtain _ | ⟨hpad, hentry, hmore⟩ := hcs
    have hnext := nextElement_comma hpad (hopens a) (hread a) hentry
      (hmore.endsNumber (endsNumber_cons (c := ']') (by decide) rest))
    rw [List.append_assoc, List.cons_append, List.append_assoc, elements_next fuel hnext,
      ih hmore (Nat.lt_of_succ_lt_succ hfuel)]
    rfl

/-- A list is read if its items are. -/
theorem reads_list (hopens : ∀ a, Opens (spells a)) (hread : ∀ a, Reads item (spells a) a)
    (items : List α) : Reads (list item) (Padded (SpellsList (items.map spells))) items := by
  rintro _ rest ⟨hpad, ⟨hinner⟩⟩ -
  rename_i pad inner
  have hlist : list item (pad ++ '[' :: (inner ++ [']']) ++ rest) =
      elements item ((inner ++ ']' :: rest).length + 1) true (inner ++ ']' :: rest) := by
    simp [list, hpad.skipSpace_cons (c := '[') rfl]
  rw [hlist]
  cases items with
  | nil =>
    obtain ⟨hinner⟩ := hinner
    exact elements_end hinner _
  | cons a more =>
    obtain _ | ⟨hentry, hmore⟩ := hinner
    have hlength := hmore.length_le
    rw [List.length_map] at hlength
    have hnext := nextElement_first (hopens a) (hread a) hentry
      (hmore.endsNumber (endsNumber_cons (c := ']') (by decide) rest))
    rw [List.append_assoc, elements_next _ hnext, elements_further hopens hread hmore]
    · rfl
    · simp only [List.length_append, List.length_cons]
      omega

end Lists

/-! ### Objects -/

def Field.Apart (f g : Field) : Prop := f.key ∈ fieldNames → f.key ≠ g.key

theorem Field.Apart.of_ne {f g : Field} (h : f.key ≠ g.key) : f.Apart g := fun _ => h

theorem Field.Apart.symm {f g : Field} (h : f.Apart g) : g.Apart f :=
  fun hg hsame => h (hsame ▸ hg) hsame.symm

theorem opens_field (f : Field) : Opens f.Spells := by
  rintro _ ⟨⟨hbody⟩, hpad, hvalue⟩
  exact ⟨'"', _, rfl, by decide⟩

theorem opens_object (own : List Field) : Opens (SpellsObject own) := by
  rintro _ ⟨hextras, hfields, hinner⟩
  exact ⟨'\x7b', _, rfl, by decide⟩

section Objects
variable {α σ : Type} {field : σ → String → Except Fault (Reader σ)} {state next : σ}
  {cs rest : List Char}

def Stores (field : σ → String → Except Fault (Reader σ)) (state : σ) (f : Field) (next : σ) :
    Prop :=
  ∃ reader, field state f.key = .ok reader ∧ Reads reader (Padded f.value.Spells) next

theorem Stores.reads_member {f : Field} (h : Stores field state f next) :
    Reads (member field state) f.Spells next := by
  obtain ⟨reader, hfield, hread⟩ := h
  rintro _ rest ⟨⟨hbody⟩, hpad, hvalue⟩ hrest
  simp [member, hbody.stringBody_eq, hfield, colon, hpad.skipSpace_cons (c := ':') rfl,
    hread _ rest hvalue hrest, bind, Except.bind]

theorem members_first {f : Field} (h : Stores field state f next) (hcs : Padded f.Spells cs)
    (hrest : EndsNumber rest) (fuel : Nat) :
    members field (fuel + 1) true state (cs ++ rest) = members field fuel false next rest := by
  obtain ⟨c, more, hentry, hskip, -, hend⟩ := (opens_field f).skipSpace_padded hcs rest
  have hmember := h.reads_member _ rest hentry hrest
  rw [List.cons_append] at hmember
  rw [members.eq_def]
  simp [hskip, hmember, bind, Except.bind]

theorem members_comma {pad : List Char} (hpad : IsPadding pad) {f : Field}
    (h : Stores field state f next) (hcs : Padded f.Spells cs) (hrest : EndsNumber rest)
    (fuel : Nat) :
    members field (fuel + 1) false state (pad ++ ',' :: (cs ++ rest)) =
      members field fuel false next rest := by
  obtain ⟨c, more, hentry, hskip, -, hend⟩ := (opens_field f).skipSpace_padded hcs rest
  have hmember := h.reads_member _ rest hentry hrest
  rw [List.cons_append] at hmember
  rw [members.eq_def]
  simp [hpad.skipSpace_cons (c := ',') rfl, hskip, hend, hmember, bind, Except.bind]

theorem members_end {pad : List Char} (hpad : IsPadding pad) {first : Bool} (fuel : Nat) :
    members field (fuel + 1) first state (pad ++ '\x7d' :: rest) = .ok (state, rest) := by
  rw [members.eq_def]
  simp [hpad.skipSpace_cons (c := '\x7d') rfl]

/-- How an object of its own fields is gathered: `met` is the state when some fields have been met,
and the state of all of them makes the value `a`. -/
structure Gathers (field : σ → String → Except Fault (Reader σ)) (finish : σ → Except Fault α)
    (own : List Field) (met : List Field → σ) (a : α) : Prop where
  known : ∀ f ∈ own, f.key ∈ fieldNames
  distinct : own.Pairwise (·.key ≠ ·.key)
  stores_own : ∀ seen, ∀ f ∈ own, (∀ g ∈ seen, g.key ≠ f.key) →
    Stores field (met seen) f (met (seen ++ [f]))
  stores_extra : ∀ seen f, f.IsExtra → Stores field (met seen) f (met (seen ++ [f]))
  finish_eq : ∀ extras fields, (∀ f ∈ extras, f.IsExtra) → fields.Perm (own ++ extras) →
    finish (met fields) = .ok a

variable {finish : σ → Except Fault α} {own : List Field} {met : List Field → σ} {a : α}

theorem Gathers.pairwise (h : Gathers field finish own met a) {extras fields : List Field}
    (hextras : ∀ f ∈ extras, f.IsExtra) (hfields : fields.Perm (own ++ extras)) :
    fields.Pairwise Field.Apart := by
  have hown : own.Pairwise Field.Apart := h.distinct.imp .of_ne
  have hextra : extras.Pairwise Field.Apart :=
    List.pairwise_of_forall_mem_list fun f hf _ _ hknown => absurd hknown (hextras f hf).1
  rw [hfields.pairwise_iff Field.Apart.symm, List.pairwise_append]
  exact ⟨hown, hextra, fun f _ g hg hknown hsame => (hextras g hg).1 (hsame ▸ hknown)⟩

/-- One more field takes the state of the fields met to that of all of them. -/
theorem Gathers.stores (h : Gathers field finish own met a) {seen : List Field} {f : Field}
    (hf : f ∈ own ∨ f.IsExtra) (hapart : ∀ g ∈ seen, g.Apart f) :
    Stores field (met seen) f (met (seen ++ [f])) := by
  cases hf with
  | inl hown =>
    exact h.stores_own seen f hown fun g hg hsame =>
      (hapart g hg).symm (h.known f hown) hsame.symm
  | inr hextra => exact h.stores_extra seen f hextra

theorem Gathers.members_further (h : Gathers field finish own met a) {seen fields : List Field}
    (hall : ∀ f ∈ fields, f ∈ own ∨ f.IsExtra) (hapart : (seen ++ fields).Pairwise Field.Apart)
    (hcs : SpellsFurther (fields.map Field.Spells) cs) {fuel : Nat}
    (hfuel : fields.length < fuel) :
    members field fuel false (met seen) (cs ++ '\x7d' :: rest) =
      .ok (met (seen ++ fields), rest) := by
  -- on the fields that are left, whatever has been met before them
  induction fields generalizing seen cs fuel with
  | nil =>
    obtain ⟨fuel, rfl⟩ := Nat.exists_eq_add_one.mpr hfuel
    obtain ⟨hpad⟩ := hcs
    rw [List.append_nil]
    exact members_end hpad fuel
  | cons f more ih =>
    obtain ⟨fuel, rfl⟩ := Nat.exists_eq_add_one.mpr (Nat.zero_lt_of_lt hfuel)
    obtain _ | ⟨hpad, hentry, hmore⟩ := hcs
    obtain ⟨hf, hall⟩ := List.forall_mem_cons.mp hall
    have hseen (g : Field) (hg : g ∈ seen) : g.Apart f :=
      (List.pairwise_append.mp hapart).2.2 g hg f List.mem_cons_self
    rw [List.append_cons seen f more] at hapart ⊢
    rw [List.append_assoc, List.cons_append, List.append_assoc,
      members_comma hpad (h.stores hf hseen) hentry
        (hmore.endsNumber (endsNumber_cons (by decide) rest)),
      ih hall hapart hmore (Nat.lt_of_succ_lt_succ hfuel)]

/-- An object is read in whatever order its fields stand. -/
theorem Gathers.object_eq (h : Gathers field finish own met a) {extras fields : List Field}
    (hextras : ∀ f ∈ extras, f.IsExtra) (hfields : fields.Perm (own ++ extras))
    (hcs : SpellsEntries (fields.map Field.Spells) cs) (rest : List Char) :
    object field (met []) finish (cs ++ '\x7d' :: rest) = .ok (a, rest) := by
  have hfinish := h.finish_eq extras fields hextras hfields
  have hmembers : members field ((cs ++ '\x7d' :: rest).length + 1) true (met [])
      (cs ++ '\x7d' :: rest) = .ok (met fields, rest) := by
    have hapart := h.pairwise hextras hfields
    have hall (f : Field) (hf : f ∈ fields) : f ∈ own ∨ f.IsExtra :=
      (List.mem_append.mp (hfields.mem_iff.mp hf)).imp_right (hextras f)
    cases fields with
    | nil =>
      obtain ⟨hpad⟩ := hcs
      exact members_end hpad _
    | cons f more =>
      obtain _ | ⟨hentry, hmore⟩ := hcs
      have hlength := hmore.length_le
      rw [List.length_map] at hlength
      obtain ⟨hf, hall⟩ := List.forall_mem_cons.mp hall
      rw [List.append_assoc, members_first (h.stores hf (List.forall_mem_nil _)) hentry
        (hmore.endsNumber (endsNumber_cons (by decide) rest))]
      refine h.members_further hall hapart hmore ?_
      simp only [List.length_append, List.length_cons]
      omega
  rw [Snapshot.object, hmembers]
  simp [bind, Except.bind, hfinish]

/-- A reader that gathers objects reads every spelling of an object. -/
theorem Gathers.reads (h : Gathers field finish own met a) {reader : Reader α}
    (hreader : ∀ {cs more}, skipSpace cs = '\x7b' :: more →
      reader cs = object field (met []) finish more) :
    Reads reader (Padded (SpellsObject own)) a := by
  rintro _ rest ⟨hpad, ⟨hextras, hfields, hinner⟩⟩ -
  rw [List.append_assoc, List.cons_append, hreader (hpad.skipSpace_cons (c := '\x7b') rfl _),
    List.append_assoc]
  exact h.object_eq hextras hfields hinner rest

end Objects

end Sketchbook.Snapshot
