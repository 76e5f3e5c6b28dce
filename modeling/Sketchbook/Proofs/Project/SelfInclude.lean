import Sketchbook.Proofs.Project.Members
import Sketchbook.Proofs.Text.Lines

/-! The include lines of the sketches. A sketch is included by its name, or by the place its link
leads to, and from the root either leads to the file of the sketch. The place is written with
slashes only and as text, so a backslash or a byte that is no text is lost from it. -/
namespace Sketchbook
open Text

def quoted? (line : String) : Option String :=
  match line.toList.dropWhile (· ≠ '"') with
  | [] => none
  | _ :: rest => if '"' ∈ rest then some (String.ofList (rest.takeWhile (· ≠ '"'))) else none

def IsQuotable (path : Bytes) : Prop := 34 ∉ path ∧ 10 ∉ path ∧ 13 ∉ path

instance (path : Bytes) : Decidable (IsQuotable path) :=
  inferInstanceAs (Decidable (34 ∉ path ∧ 10 ∉ path ∧ 13 ∉ path))

def Sketch.IsQuotable (sketch : Sketch) : Prop :=
  Sketchbook.IsQuotable (encode sketch.name) ∧
    ∀ target ∈ sketch.linkTarget, Sketchbook.IsQuotable target

/-- The path is text, and no sign in it is a backslash. -/
def Path.IsKept (path : Bytes) : Prop := (decode? path).isSome ∧ 92 ∉ path

instance (path : Bytes) : Decidable (Path.IsKept path) :=
  inferInstanceAs (Decidable ((decode? path).isSome ∧ 92 ∉ path))

namespace Path

theorem encode_includeText {path : Bytes} (h : IsKept path) : encode (includeText path) = path := by
  obtain ⟨htext, hback⟩ := h
  obtain ⟨text, htext⟩ := Option.isSome_iff_exists.mp htext
  rw [← encode_of_decode? htext] at hback ⊢
  have hkept : ∀ c ∈ text.toList, (if c = '\\' then '/' else c) = c := by
    intro c hc
    exact if_neg fun heq => not_mem_toList rfl hback (heq ▸ hc)
  rw [includeText, decodeLossy_encode, List.map_congr_left hkept, List.map_id',
    String.ofList_toList]

theorem join_of_isAbsolute {name : Bytes} (h : isAbsolute name = true) (directory : Bytes) :
    join directory name = name := by
  rw [join, if_pos h]

end Path

def Sketch.included (sketch : Sketch) : String :=
  match sketch.linkTarget with
  | some target => Path.includeText target
  | none => sketch.name

theorem quoted?_selfInclude {sketch : Sketch} (h : 34 ∉ encode sketch.included) :
    quoted? sketch.selfInclude = some sketch.included := by
  have hquote : '"' ∉ sketch.included.toList := not_mem_toList rfl h
  have hkeep : ∀ c ∈ sketch.included.toList, decide (c ≠ '"') = true := fun c hc =>
    decide_eq_true fun heq => hquote (heq ▸ hc)
  have hline : sketch.selfInclude = "#include \"" ++ sketch.included ++ "\"" := rfl
  have hbehind : sketch.selfInclude.toList.dropWhile (· ≠ '"') =
      '"' :: (sketch.included.toList ++ ['"']) := by
    simp [hline, String.toList_append]
  have hbetween : (sketch.included.toList ++ ['"']).takeWhile (· ≠ '"') =
      sketch.included.toList := by
    rw [List.takeWhile_append_of_pos hkeep]
    simp
  rw [quoted?, hbehind]
  simp only [hbetween, String.ofList_toList]
  exact if_pos (by simp)

namespace Project

variable {tree : FileTree} {path : Bytes} {name : Option String} {project : Project}
  {settings : Settings} {sketch : Sketch}

/-- The path between the quotes of the include line leads from the root to the file of the
sketch. -/
def IncludesItself (tree : FileTree) (project : Project) (sketch : Sketch) : Prop :=
  ∃ included location content, quoted? sketch.selfInclude = some included ∧
    tree.resolve (Path.join project.root (encode included)) = .ok location ∧
    tree.resolve (project.filePath sketch.name) = .ok location ∧
    tree.node? location = some (.file content)

/-- The target of a linked sketch is the path of the location that the sketch leads to. -/
theorem linkTarget_eq_pathOf {target : Bytes} {location : Location}
    (hopen : openAt tree path name = .ok project) (hsketch : sketch ∈ project.sketches settings)
    (hlink : sketch.linkTarget = some target)
    (hresolve : tree.resolve (project.filePath sketch.name) = .ok location) :
    target = FileTree.pathOf location := by
  obtain ⟨m, hm, hmade⟩ := mem_sketches_iff.mp hsketch
  obtain ⟨extension, -, -, rfl⟩ := Member.sketch?_eq_some_iff.mp hmade
  rw [← (isFile_of_mem hopen hm).1] at hresolve
  obtain ⟨root, -, rfl⟩ := openAt_eq_ok_iff.mp hopen
  obtain ⟨entry, -, hentry⟩ := List.mem_filterMap.mp hm
  obtain ⟨-, -, -, htarget⟩ := member?_eq_some_iff.mp hentry
  rw [htarget, linkTarget?] at hlink
  split at hlink
  · simpa [FileTree.canonical, hresolve, Except.map, Except.toOption] using hlink.symm
  · contradiction

/-- The include line of a sketch names the sketch, where a link target is text without
backslashes. -/
theorem includesItself_of_isKept (hopen : openAt tree path name = .ok project)
    (hsketch : sketch ∈ project.sketches settings)
    (hquotable : sketch.IsQuotable) (hkept : ∀ target ∈ sketch.linkTarget, Path.IsKept target) :
    IncludesItself tree project sketch := by
  obtain ⟨location, content, hresolve, hfile⟩ := exists_resolve_sketch hopen hsketch
  cases hlink : sketch.linkTarget with
  | none =>
    have hincluded : sketch.included = sketch.name := by rw [Sketch.included, hlink]
    refine ⟨sketch.included, location, content, quoted?_selfInclude ?_, ?_, hresolve, hfile⟩
    · rw [hincluded]
      exact hquotable.1.1
    · rw [hincluded]
      exact hresolve
  | some target =>
    have hincluded : encode sketch.included = target := by
      rw [Sketch.included, hlink]
      exact Path.encode_includeText (hkept target hlink)
    have htarget := linkTarget_eq_pathOf hopen hsketch hlink hresolve
    refine ⟨sketch.included, location, content, quoted?_selfInclude ?_, ?_, hresolve, hfile⟩
    · rw [hincluded]
      exact (hquotable.2 target hlink).1
    · rw [hincluded, htarget, Path.join_of_isAbsolute (FileTree.isAbsolute_pathOf location)]
      exact FileTree.resolve_pathOf_file hfile

def sharedTree : FileTree where
  entries :=
    [([encode "p"], .directory), ([encode "a.ino", encode "p"], .file []),
     ([encode "b.ino", encode "p"], .link (encode "../l")),
     ([encode "l"], .link (encode "π t")), ([encode "π t"], .file [])]
  distinct := by decide +kernel
  fit := by decide +kernel

def shared : Project where
  name := "p"
  root := encode "/p"
  members :=
    [⟨"a.ino", encode "/p/a.ino", none⟩, ⟨"b.ino", encode "/p/b.ino", some (encode "/π t")⟩]

theorem includesItself_shared :
    openAt sharedTree (encode "p") none = .ok shared ∧
    shared.sketches {} = [⟨"a.ino", false, none⟩, ⟨"b.ino", false, some (encode "/π t")⟩] ∧
    IncludesItself sharedTree shared ⟨"a.ino", false, none⟩ ∧
    IncludesItself sharedTree shared ⟨"b.ino", false, some (encode "/π t")⟩ := by
  have hnames : sharedTree.names [encode "p"] = [encode "a.ino", encode "b.ino"] :=
    FileTree.names_eq (by decide +kernel) (by decide +kernel)
  have hopen : openAt sharedTree (encode "p") none = .ok shared := by
    rw [openAt_of_names (by decide +kernel) (by decide +kernel) hnames]
    decide +kernel
  have hsketches : shared.sketches {} =
      [⟨"a.ino", false, none⟩, ⟨"b.ino", false, some (encode "/π t")⟩] := by decide +kernel
  have hquotable : IsQuotable (encode "/π t") := by decide +kernel
  have hkept : Path.IsKept (encode "/π t") := by decide +kernel
  refine ⟨hopen, hsketches, ?_, ?_⟩
  · exact includesItself_of_isKept hopen (by rw [hsketches]; decide)
      ⟨by decide +kernel, by rintro _ ⟨⟩⟩ (by rintro _ ⟨⟩)
  · exact includesItself_of_isKept hopen (by rw [hsketches]; decide)
      ⟨by decide +kernel, by rintro _ ⟨⟩; exact hquotable⟩ (by rintro _ ⟨⟩; exact hkept)

def strangeTree : FileTree where
  entries :=
    [([encode "a.ino"], .link (encode "x\\y")), ([encode "b.ino"], .link [255]),
     ([encode "x\\y"], .file []), ([[255]], .file [])]
  distinct := by decide +kernel
  fit := by decide +kernel

def strange : Project where
  name := "p"
  root := [47]
  members :=
    [⟨"a.ino", encode "/a.ino", some (encode "/x\\y")⟩,
     ⟨"b.ino", encode "/b.ino", some [47, 255]⟩, ⟨"x\\y", encode "/x\\y", none⟩]

theorem not_includesItself_of_error {fault : FileFault} (hquote : 34 ∉ encode sketch.included)
    (h : tree.resolve (Path.join project.root (encode sketch.included)) = .error fault) :
    ¬ IncludesItself tree project sketch := by
  rintro ⟨included, location, content, hincluded, hresolve, -, -⟩
  cases (quoted?_selfInclude hquote).symm.trans hincluded
  cases h.symm.trans hresolve

/-- The line of neither link leads anywhere, though there is no quote or line break in a name or
target. -/
theorem not_includesItself_strange :
    openAt strangeTree [47] (some "p") = .ok strange ∧
    strange.sketches {} =
      [⟨"a.ino", false, some (encode "/x\\y")⟩, ⟨"b.ino", false, some [47, 255]⟩] ∧
    Sketch.IsQuotable ⟨"a.ino", false, some (encode "/x\\y")⟩ ∧
    Sketch.IsQuotable ⟨"b.ino", false, some [47, 255]⟩ ∧
    ¬ IncludesItself strangeTree strange ⟨"a.ino", false, some (encode "/x\\y")⟩ ∧
    ¬ IncludesItself strangeTree strange ⟨"b.ino", false, some [47, 255]⟩ := by
  have hback : IsQuotable (encode "/x\\y") := by decide +kernel
  have hbyte : IsQuotable [47, 255] := by decide +kernel
  have hnames : strangeTree.names [] =
      [encode "a.ino", encode "b.ino", encode "x\\y", [255]] :=
    FileTree.names_eq (by decide +kernel) (by decide +kernel)
  have hopen : openAt strangeTree [47] (some "p") = .ok strange := by
    rw [openAt_of_names (by decide +kernel) rfl hnames]
    decide +kernel
  refine ⟨hopen, by decide +kernel, ⟨by decide +kernel, by rintro _ ⟨⟩; exact hback⟩,
    ⟨by decide +kernel, by rintro _ ⟨⟩; exact hbyte⟩, ?_, ?_⟩
  · have hgone : strangeTree.resolve (Path.join [47] (encode (Path.includeText (encode "/x\\y")))) =
        .error .noEntry := by decide +kernel
    exact not_includesItself_of_error (by decide +kernel) hgone
  · have hgone : strangeTree.resolve (Path.join [47] (encode (Path.includeText [47, 255]))) =
        .error .noEntry := by decide +kernel
    exact not_includesItself_of_error (by decide +kernel) hgone

end Project

end Sketchbook
