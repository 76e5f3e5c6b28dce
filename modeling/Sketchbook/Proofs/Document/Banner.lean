import Sketchbook.Document

/-! The unified source around the time in its banner. The time is all that assembling takes from
the clock, so at another time the same is assembled but for the banner. -/
namespace Sketchbook.Document

variable {settings : Settings} {sketches : List Sketch} {index : Index}
  {instant : Calendar.Instant} {document : Document}

def bannerStart : String :=
  "//This is an automatically generated file\n" ++
  "//Please do not modify this file\n" ++
  "//If you touch this file your change will be overwritten during the next build\n" ++
  "//This file has been generated on "

theorem bannerText_eq (generatedAt : String) :
    bannerText generatedAt = bannerStart ++ generatedAt ++ "\n\n" := rfl

def beforeTime (settings : Settings) : String :=
  "#ifdef " ++ settings.sentinel ++ "\n" ++ bannerStart

def afterBanner (document : Document) : String :=
  document.includePart ++ document.body ++ "\n" ++
    String.join (document.selfIncludes.map (· ++ "\n")) ++ "\n#endif\n"

theorem render_of_assemble (h : assemble settings sketches index instant = some document) :
    document.render settings.sentinel =
      beforeTime settings ++ instant.render ++ "\n\n" ++ document.afterBanner := by
  have hbanner : document.banner = bannerText instant.render := by
    unfold assemble at h
    split at h
    · contradiction
    · cases h
      rfl
  unfold render beforeTime afterBanner
  rw [hbanner, bannerText_eq]
  simp only [String.append_assoc]

/-- At another time only the banner is another. -/
theorem assemble_again (h : assemble settings sketches index instant = some document)
    (again : Calendar.Instant) : assemble settings sketches index again =
      some { document with banner := bannerText again.render } := by
  unfold assemble at h ⊢
  split at h
  · contradiction
  · next hsketches =>
    cases h
    rw [if_neg hsketches]

end Sketchbook.Document
