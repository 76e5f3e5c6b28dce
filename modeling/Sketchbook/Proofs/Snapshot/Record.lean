import Sketchbook.Proofs.Snapshot.Containers

/-! A unit is read from every record that spells it, whatever the order of its fields and whatever
extra fields stand among them. The kind of a declaration is read from what has been collected when
all fields have been met. -/
namespace Sketchbook.Snapshot

/-! ### Fields -/

theorem skipValue_text {s : String} {cs : List Char} (hcs : Padded (SpellsText s) cs)
    (rest : List Char) : skipValue (cs ++ rest) = .ok rest := by
  obtain ⟨hpad, ⟨hbody⟩⟩ := hcs
  simp [skipValue, through, traverse, hpad.skipSpace_cons (c := '"') rfl, Care.scalar, skipScalar,
    hbody.skipStringBody_eq, bind, Except.bind]

/-- An extra field is passed over. -/
theorem stores_unknown {σ : Type} {field : σ → String → Except Fault (Reader σ)} {state : σ}
    {f : Field} (hfield : field state f.key = unknown state) (hextra : f.IsExtra) :
    Stores field state f state := by
  refine ⟨_, hfield, fun cs rest hcs _ => ?_⟩
  obtain ⟨-, s, hvalue⟩ := hextra
  rw [hvalue] at hcs
  simp [skipValue_text hcs, Except.map]

theorem reads_text (s : String) : Reads text (Padded (SpellsText s)) s := by
  rintro _ rest ⟨hpad, ⟨hbody⟩⟩ -
  simp [text, hpad.skipSpace_cons (c := '"') rfl, hbody.stringBody_eq, Except.map]

theorem reads_shape (depth : Nat) (s : String) :
    Reads (shape depth) (Padded (SpellsText s)) (.string s) := by
  rintro _ rest ⟨hpad, ⟨hbody⟩⟩ -
  simp [shape, shapeAt, scalar, hpad.skipSpace_cons (c := '"') rfl, hbody.stringBody_eq, bind,
    Except.bind, Except.map]

theorem reads_lineNumber (line : LineNumber) :
    Reads lineNumber (Padded (SpellsLine line)) line := by
  rintro _ rest ⟨hpad, rfl⟩ hrest
  rw [List.append_assoc]
  exact lineNumber_toDigits line hpad hrest

theorem Field.IsExtra.ne {f : Field} (h : f.IsExtra) {name : String} (hname : name ∈ fieldNames) :
    f.key ≠ name := by
  rintro rfl
  exact h.1 hname

def slot {α : Type} (key : String) (a : α) (met : List Field) : Option α :=
  if met.any (·.key == key) then some a else none

section Slots
variable {α : Type} {a : α} {key : String} {met : List Field} {f : Field}

@[simp] theorem slot_append_same (h : f.key = key) : slot key a (met ++ [f]) = some a := by
  simp [slot, h]

@[simp] theorem slot_append_ne (h : f.key ≠ key) : slot key a (met ++ [f]) = slot key a met := by
  simp [slot, h]

theorem slot_eq_none (h : ∀ g ∈ met, g.key ≠ key) : slot key a met = none := by
  simpa [slot] using h

theorem slot_eq_some (h : f ∈ met) (hkey : f.key = key) : slot key a met = some a := by
  have hmet : ∃ g ∈ met, g.key = key := ⟨f, h, hkey⟩
  simpa [slot] using hmet

/-- A field that has a place of its own and has not been met is put there. -/
theorem stores_slot {σ : Type} {field : σ → String → Except Fault (Reader σ)} {state next : σ}
    {name : String} {reader : Reader α} {store : α → σ} (hfresh : ∀ g ∈ met, g.key ≠ f.key)
    (hfield : field state f.key = once name (slot f.key a met) reader store)
    (hread : Reads reader (Padded f.value.Spells) a) (hstore : store a = next) :
    Stores field state f next := by
  rw [slot_eq_none hfresh] at hfield
  subst hstore
  refine ⟨_, hfield, fun cs rest hcs hrest => ?_⟩
  simp [hread cs rest hcs hrest, Except.map]

end Slots

/-! ### Directives -/

def metDirective (d : Directive) (met : List Field) : DirectiveFields :=
  ⟨slot "raw" d.raw met, slot "line" d.line met⟩

theorem gathers_directive (d : Directive) :
    Gathers DirectiveFields.field DirectiveFields.finish (directiveFields d) (metDirective d)
      d where
  known := by simp [directiveFields, fieldNames]
  distinct := by simp [directiveFields]
  stores_own met f hf hfresh := by
    simp only [directiveFields, List.mem_cons, List.not_mem_nil, or_false] at hf
    rcases hf with rfl | rfl
    · exact stores_slot hfresh (by rw [DirectiveFields.field]; rfl) (reads_text d.raw)
        (by simp [metDirective])
    · exact stores_slot hfresh (by rw [DirectiveFields.field]; rfl) (reads_lineNumber d.line)
        (by simp [metDirective])
  stores_extra met f hextra := by
    have hraw : f.key ≠ "raw" := hextra.ne (by decide)
    have hline : f.key ≠ "line" := hextra.ne (by decide)
    have hnext : metDirective d (met ++ [f]) = metDirective d met := by
      simp [metDirective, hraw, hline]
    rw [hnext]
    exact stores_unknown (by simp [DirectiveFields.field.eq_def]) hextra
  finish_eq extras fields _ hfields := by
    have hmem (f : Field) (hf : f ∈ directiveFields d) : f ∈ fields :=
      hfields.mem_iff.mpr (List.mem_append_left _ hf)
    simp only [directiveFields, List.forall_mem_cons] at hmem
    obtain ⟨hraw, hline, -⟩ := hmem
    simp [metDirective, slot_eq_some hraw, slot_eq_some hline, DirectiveFields.finish, required,
      bind, Except.bind]

theorem reads_directive (wanted : Wanted) (d : Directive) :
    Reads (directive wanted) (Padded (SpellsDirective d)) d :=
  (gathers_directive d).reads fun hskip => by
    rw [directive, hskip]
    rfl

/-! ### Declarations -/

def placedNames : List String := ["raw", "start_line", "end_line", "containing_file"]

def Field.collected? (f : Field) : Option (String × Shape) :=
  match f.value with
  | .text s => if f.key ∈ placedNames then none else some (f.key, .string s)
  | _ => none

def metDeclaration (d : Declaration) (met : List Field) : DeclarationFields where
  raw := slot "raw" d.raw met
  startLine := slot "start_line" d.startLine met
  endLine := slot "end_line" d.endLine met
  containingFile := slot "containing_file" d.containingFile met
  collected := met.filterMap Field.collected?

def kindShapes : DeclarationKind → List (String × Shape)
  | .functionDefinition => [("kind", .string "function_definition")]
  | .linkageSpecification literal =>
    [("kind", .string "linkage_specification"), ("literal", .string literal)]
  | .other => [("kind", .string "other")]

theorem filterMap_declarationFields (d : Declaration) :
    (declarationFields d).filterMap Field.collected? = kindShapes d.kind := by
  cases hkind : d.kind <;>
    simp [declarationFields, kindFields, kindShapes, hkind, Field.collected?, placedNames]

theorem mem_kindFields {kind : DeclarationKind} {f : Field} (h : f ∈ kindFields kind) :
    f.key ∉ placedNames ∧ ∃ s, f.value = .text s := by
  cases kind <;> simp only [kindFields, List.mem_cons, List.not_mem_nil, or_false] at h
  · subst h
    exact ⟨by decide, _, rfl⟩
  · rcases h with rfl | rfl <;> exact ⟨by simp [placedNames], _, rfl⟩
  · subst h
    exact ⟨by decide, _, rfl⟩

/-- Every name without a place of its own is treated alike, that of the kind included. -/
theorem field_collected {fields : DeclarationFields} {key : String} (h : key ∉ placedNames) :
    fields.field key = .ok fun cs => (shape collectedDepth cs).map fun (shape, rest) =>
      ({ fields with collected := fields.collected ++ [(key, shape)] }, rest) := by
  simp only [placedNames, List.mem_cons, List.not_mem_nil, or_false, not_or] at h
  obtain ⟨hraw, hstart, hend, hfile⟩ := h
  -- the four facts settle the match on the key
  simp [DeclarationFields.field.eq_def]

/-- A text without a place of its own is collected, whether the declaration knows it or not. -/
theorem stores_collected (d : Declaration) (met : List Field) {f : Field}
    (hkey : f.key ∉ placedNames) (hvalue : ∃ s, f.value = .text s) :
    Stores DeclarationFields.field (metDeclaration d met) f (metDeclaration d (met ++ [f])) := by
  refine ⟨_, field_collected hkey, fun cs rest hcs hrest => ?_⟩
  obtain ⟨s, hvalue⟩ := hvalue
  have hcollected : f.collected? = some (f.key, .string s) := by
    simp [Field.collected?, hvalue, hkey]
  rw [hvalue] at hcs
  simp only [placedNames, List.mem_cons, List.not_mem_nil, or_false, not_or] at hkey
  rw [reads_shape collectedDepth s cs rest hcs hrest]
  simp [metDeclaration, hkey, hcollected, Except.map]

theorem eq_of_perm_of_length_le {α : Type} {l others : List α} (h : l.Perm others)
    (hothers : others.length ≤ 1) : l = others := by
  match others with
  | [] => exact h.eq_nil
  | [_] => exact List.perm_singleton.mp h
  | _ :: _ :: _ => simp at hothers

theorem Field.key_of_collected {f : Field} {entry : String × Shape}
    (h : f.collected? = some entry) : f.key = entry.1 := by
  unfold Field.collected? at h
  split at h
  · split at h
    · cases h
    · cases h
      rfl
  · cases h

/-- Neither the order of the fields nor extra ones change what is collected under a name that some
record has. -/
theorem filter_collected {own extras fields : List Field} (hextras : ∀ f ∈ extras, f.IsExtra)
    (hfields : fields.Perm (own ++ extras)) {name : String} (hname : name ∈ fieldNames)
    (hsole : ((own.filterMap Field.collected?).filter (·.1 == name)).length ≤ 1) :
    (fields.filterMap Field.collected?).filter (·.1 == name) =
      (own.filterMap Field.collected?).filter (·.1 == name) := by
  have hnone : (extras.filterMap Field.collected?).filter (·.1 == name) = [] := by
    refine List.filter_eq_nil_iff.mpr fun entry hentry hsame => ?_
    obtain ⟨f, hf, hcollected⟩ := List.mem_filterMap.mp hentry
    have hkey := Field.key_of_collected hcollected
    exact (hextras f hf).ne hname (hkey.trans (beq_iff_eq.mp hsame))
  have hperm := (hfields.filterMap Field.collected?).filter (·.1 == name)
  rw [List.filterMap_append, List.filter_append, hnone, List.append_nil] at hperm
  exact eq_of_perm_of_length_le hperm hsole

theorem soleField_congr {α : Type} {name : String} {collected others : List (String × Shape)}
    (h : collected.filter (·.1 == name) = others.filter (·.1 == name))
    (read : Shape → Except Fault α) :
    soleField name read collected = soleField name read others := by
  simp only [soleField, h]

theorem finish_kindShapes (d : Declaration) :
    DeclarationFields.finish ⟨some d.raw, some d.startLine, some d.endLine,
      some d.containingFile, kindShapes d.kind⟩ = .ok d := by
  obtain ⟨kind, raw, startLine, endLine, containingFile⟩ := d
  cases kind <;> rfl

theorem gathers_declaration (d : Declaration) :
    Gathers DeclarationFields.field DeclarationFields.finish (declarationFields d)
      (metDeclaration d) d where
  known := by cases hkind : d.kind <;> simp [declarationFields, kindFields, hkind, fieldNames]
  distinct := by cases hkind : d.kind <;> simp [declarationFields, kindFields, hkind]
  stores_own met f hf hfresh := by
    rcases List.mem_append.mp hf with hkind | hplaced
    · obtain ⟨hkey, hvalue⟩ := mem_kindFields hkind
      exact stores_collected d met hkey hvalue
    simp only [List.mem_cons, List.not_mem_nil, or_false] at hplaced
    rcases hplaced with rfl | rfl | rfl | rfl
    · exact stores_slot hfresh (by rw [DeclarationFields.field]; rfl) (reads_text d.raw)
        (by simp [metDeclaration, Field.collected?, placedNames])
    · exact stores_slot hfresh (by rw [DeclarationFields.field]; rfl) (reads_lineNumber d.startLine)
        (by simp [metDeclaration, Field.collected?])
    · exact stores_slot hfresh (by rw [DeclarationFields.field]; rfl) (reads_lineNumber d.endLine)
        (by simp [metDeclaration, Field.collected?])
    · exact stores_slot hfresh (by rw [DeclarationFields.field]; rfl) (reads_text d.containingFile)
        (by simp [metDeclaration, Field.collected?, placedNames])
  stores_extra met f hextra := by
    have hknown : ∀ name ∈ placedNames, name ∈ fieldNames := by decide
    exact stores_collected d met (fun hkey => hextra.1 (hknown _ hkey)) hextra.2
  finish_eq extras fields hextras hfields := by
    have hmem (f : Field) (hf : f ∈ declarationFields d) : f ∈ fields :=
      hfields.mem_iff.mpr (List.mem_append_left _ hf)
    simp only [declarationFields, List.forall_mem_append, List.forall_mem_cons] at hmem
    obtain ⟨-, hraw, hstart, hend, hfile, -⟩ := hmem
    have hcollected (name : String) (hname : name ∈ fieldNames)
        (hsole : ((kindShapes d.kind).filter (·.1 == name)).length ≤ 1) :
        (fields.filterMap Field.collected?).filter (·.1 == name) =
          (kindShapes d.kind).filter (·.1 == name) := by
      rw [← filterMap_declarationFields] at hsole ⊢
      exact filter_collected hextras hfields hname hsole
    have hkind := hcollected "kind" (by decide)
      (by cases d.kind <;> simp [kindShapes])
    have hliteral := hcollected "literal" (by decide)
      (by cases d.kind <;> simp [kindShapes])
    rw [← finish_kindShapes d]
    simp only [DeclarationFields.finish, metDeclaration, slot_eq_some hraw rfl,
      slot_eq_some hstart rfl, slot_eq_some hend rfl, slot_eq_some hfile rfl,
      soleField_congr hkind, soleField_congr hliteral]

theorem reads_declaration (d : Declaration) :
    Reads declaration (Padded (SpellsDeclaration d)) d :=
  (gathers_declaration d).reads fun hskip => by
    rw [declaration, hskip]
    rfl

/-! ### Units -/

theorem Reads.unpadded {α : Type} {reader : Reader α} {spelling : Spelling} {a : α}
    (h : Reads reader (Padded spelling) a) : Reads reader spelling a :=
  fun cs rest hcs hrest => h cs rest (padded_of_spells hcs) hrest

theorem reads_declarationList (declarations : List Declaration) :
    Reads declarationList (Padded (SpellsList (declarations.map SpellsDeclaration)))
      declarations :=
  reads_list (fun _ => opens_object _) (fun d => (reads_declaration d).unpadded) declarations

theorem reads_includeList (includes : List Directive) :
    Reads includeList (Padded (SpellsList (includes.map SpellsDirective))) includes :=
  reads_list (fun _ => opens_object _) (fun d => (reads_directive _ d).unpadded) includes

theorem reads_macroList (macros : List Directive) :
    Reads macroList (Padded (SpellsList (macros.map SpellsDirective))) macros :=
  reads_list (fun _ => opens_object _) (fun d => (reads_directive _ d).unpadded) macros

theorem ListField.pairwise {key : String} {items : List Spelling} {fields : List Field}
    (h : ListField key items fields) : fields.Pairwise (·.key ≠ ·.key) := by
  cases h with
  | written => exact List.pairwise_singleton _ _
  | omitted => exact .nil

/-- A list that is left out is empty. -/
theorem ListField.getD_slot {α : Type} {spells : α → Spelling} {key : String} {items : List α}
    {own fields : List Field} (h : ListField key (items.map spells) own)
    (hown : ∀ f ∈ own, f ∈ fields) : (slot key items fields).getD [] = items := by
  generalize hentries : items.map spells = entries at h
  cases h with
  | written => rw [slot_eq_some (hown _ List.mem_cons_self) rfl, Option.getD_some]
  | omitted =>
    rw [List.map_eq_nil_iff.mp hentries, slot]
    split <;> rfl

def metUnit (u : SourceUnit) (met : List Field) : UnitFields where
  file := slot "file" u.file met
  declarations := slot "declarations" u.declarations met
  includes := slot "includes" u.includes met
  macros := slot "macros" u.macros met

theorem UnitFieldList.pairwise {u : SourceUnit} {own : List Field} (h : UnitFieldList u own) :
    own.Pairwise (·.key ≠ ·.key) := by
  obtain ⟨hdeclarations, hincludes, hmacros⟩ := h
  have hapart {key other : String} {items others : List Spelling} {fields more : List Field}
      (hne : key ≠ other) (hfields : ListField key items fields)
      (hmore : ListField other others more) : ∀ f ∈ fields, ∀ g ∈ more, f.key ≠ g.key := by
    intro f hf g hg
    rw [hfields.eq_of_mem hf, hmore.eq_of_mem hg]
    exact hne
  have hfile {key : String} {items : List Spelling} {fields : List Field} (hne : "file" ≠ key)
      (hfields : ListField key items fields) : ∀ f ∈ fields, "file" ≠ f.key := by
    intro f hf
    rw [hfields.eq_of_mem hf]
    exact hne
  simp only [List.pairwise_cons, List.pairwise_append, List.forall_mem_append]
  exact ⟨⟨hfile (by decide) hdeclarations, hfile (by decide) hincludes, hfile (by decide) hmacros⟩,
    hdeclarations.pairwise,
    ⟨hincludes.pairwise, hmacros.pairwise, hapart (by decide) hincludes hmacros⟩,
    fun f hf => ⟨hapart (by decide) hdeclarations hincludes f hf,
      hapart (by decide) hdeclarations hmacros f hf⟩⟩

theorem gathers_unit {u : SourceUnit} {own : List Field} (h : UnitFieldList u own) :
    Gathers UnitFields.field UnitFields.finish own (metUnit u) u where
  known f hf := by
    rcases h.eq_of_mem hf with rfl | rfl | rfl | rfl <;> simp [fieldNames]
  distinct := h.pairwise
  stores_own met f hf hfresh := by
    rcases h.eq_of_mem hf with rfl | rfl | rfl | rfl
    · exact stores_slot hfresh (by rw [UnitFields.field]; rfl) (reads_text u.file)
        (by simp [metUnit])
    · exact stores_slot hfresh (by rw [UnitFields.field]; rfl)
        (reads_declarationList u.declarations) (by simp [metUnit])
    · exact stores_slot hfresh (by rw [UnitFields.field]; rfl) (reads_includeList u.includes)
        (by simp [metUnit])
    · exact stores_slot hfresh (by rw [UnitFields.field]; rfl) (reads_macroList u.macros)
        (by simp [metUnit])
  stores_extra met f hextra := by
    have hfile : f.key ≠ "file" := hextra.ne (by decide)
    have hdeclarations : f.key ≠ "declarations" := hextra.ne (by decide)
    have hincludes : f.key ≠ "includes" := hextra.ne (by decide)
    have hmacros : f.key ≠ "macros" := hextra.ne (by decide)
    have hnext : metUnit u (met ++ [f]) = metUnit u met := by
      simp [metUnit, hfile, hdeclarations, hincludes, hmacros]
    rw [hnext]
    exact stores_unknown (by simp [UnitFields.field.eq_def]) hextra
  finish_eq extras fields _ hfields := by
    have hmem (f : Field) (hf : f ∈ own) : f ∈ fields :=
      hfields.mem_iff.mpr (List.mem_append_left _ hf)
    obtain ⟨hdeclarations, hincludes, hmacros⟩ := h
    simp only [List.forall_mem_cons, List.forall_mem_append] at hmem
    obtain ⟨hfile, hinDeclarations, hinIncludes, hinMacros⟩ := hmem
    simp [metUnit, UnitFields.finish, required, slot_eq_some hfile,
      hdeclarations.getD_slot hinDeclarations, hincludes.getD_slot hinIncludes,
      hmacros.getD_slot hinMacros, bind, Except.bind]

theorem reads_unit (u : SourceUnit) : Reads unit (Padded (SpellsUnit u)) u := by
  rintro _ rest ⟨hpad, ⟨hfields, hobject⟩⟩ hrest
  have hreads : Reads unit (Padded (SpellsObject _)) u :=
    (gathers_unit hfields).reads fun hskip => by
      rw [unit, hskip]
      rfl
  exact hreads _ rest (.behind hpad hobject) hrest

/-- A unit is read from every record that spells it. -/
theorem readRecord_of_spells {u : SourceUnit} {record : String}
    (h : SpellsRecord u record.toList) : readRecord record = .ok u := by
  generalize htext : record.toList = text at h
  cases h with
  | @padded cs pad hunit hpad =>
    have hends : EndsNumber pad := by simpa using hpad.endsNumber endsNumber_nil
    have hend : skipSpace pad = [] := by simpa [skipSpace] using hpad.skipSpace_append []
    rw [readRecord, htext, reads_unit u cs pad hunit hends]
    simp [bind, Except.bind, hend]

end Sketchbook.Snapshot
