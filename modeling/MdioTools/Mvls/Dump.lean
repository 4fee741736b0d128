import MdioTools.Mvls.Json
import MdioTools.Mvls.Show

/-!
# Dumps of whole tables

The six loops over a region share their shape: they go on until the parser
rejects an entry, and do not look at the size of the region.

Main results:

- Theorem {lit}`dumpLoops_iff`: each loop stays in the region and prints the
  accepted prefix if and only if the region has an entry that is rejected.
-/

namespace MdioTools.Mvls

variable {κ ε σ : Type}

/-- A loop ends without reading outside of the region, and has handled the
longest prefix of entries that the parser accepts. -/
def StaysInside (t : KTable κ) (parse : κ → Option ε) (body : σ → ε → σ)
    (loop : Region → σ → Option σ) (mem : Region) : Prop :=
  ∀ s, loop mem s = some ((acceptedPrefix parse (t.entries mem)).foldl body s)

/-- A loop stays inside of a region that is terminated, and of no other. -/
theorem staysInside_dumpLoop_iff [Nonempty σ] (t : KTable κ) (parse : κ → Option ε)
    (body : σ → ε → σ) (mem : Region) :
    StaysInside t parse body (dumpLoop t parse body) mem ↔ Terminated t parse mem := by
  constructor
  · intro h
    by_contra hopen
    obtain ⟨s⟩ := ‹Nonempty σ›
    have hleaves := dumpLoop_open hopen body s
    rw [h s] at hleaves
    cases hleaves
  · exact fun h s => dumpLoop_terminated h body s

/-- What the loops of a printer over the regions of a device have to do: the
three of the text printer and the three of the JSON printer. -/
structure LoopsStay (dev : Dev) (atu vtu stu : Region) : Prop where
  showAtu : StaysInside atuTable dev.chip.family.devAtuParse (showAtuEntry dev) (showAtuLoop dev) atu
  showVtu : StaysInside vtuTable dev.chip.family.devVtuParse (showVtuEntry dev) (showVtuLoop dev) vtu
  showStu : StaysInside stuTable dev.chip.family.devStuParse (showStuEntry dev) (showStuLoop dev) stu
  jsonAtu : StaysInside atuTable dev.chip.family.devAtuParse (jsonAtuEntry dev) (jsonAtuLoop dev) atu
  jsonVtu : StaysInside vtuTable dev.chip.family.devVtuParse (jsonVtuEntry dev) (jsonVtuLoop dev) vtu
  jsonStu : StaysInside stuTable dev.chip.family.devStuParse (jsonStuEntry dev) (jsonStuLoop dev) stu

/-- The loops end, print the accepted prefix and read nothing outside of the
regions if and only if each region has an entry that the family rejects. -/
theorem dumpLoops_iff (dev : Dev) (atu vtu stu : Region) :
    LoopsStay dev atu vtu stu ↔
      Terminated atuTable dev.chip.family.devAtuParse atu ∧
        Terminated vtuTable dev.chip.family.devVtuParse vtu ∧
        Terminated stuTable dev.chip.family.devStuParse stu := by
  have : Nonempty JsonVtuState := ⟨⟨0, 0, 0, ⟨true, []⟩, []⟩⟩
  have : Nonempty JsonStuState := ⟨⟨0, 0, 0, 0, ⟨true, []⟩, []⟩⟩
  have : Nonempty CommaText := ⟨⟨true, []⟩⟩
  constructor
  · intro h
    exact ⟨(staysInside_dumpLoop_iff _ _ _ _).mp h.showAtu,
      (staysInside_dumpLoop_iff _ _ _ _).mp h.showVtu,
      (staysInside_dumpLoop_iff _ _ _ _).mp h.showStu⟩
  · rintro ⟨hatu, hvtu, hstu⟩
    exact {
      showAtu := (staysInside_dumpLoop_iff _ _ _ _).mpr hatu
      showVtu := (staysInside_dumpLoop_iff _ _ _ _).mpr hvtu
      showStu := (staysInside_dumpLoop_iff _ _ _ _).mpr hstu
      jsonAtu := (staysInside_dumpLoop_iff _ _ _ _).mpr hatu
      jsonVtu := (staysInside_dumpLoop_iff _ _ _ _).mpr hvtu
      jsonStu := (staysInside_dumpLoop_iff _ _ _ _).mpr hstu }

/-- A switch without ports whose regions have all been queried. -/
def exampleDev (chip : Chip) (atu vtu stu : Region) : Dev where
  chip := chip
  index := 0
  ports := []
  atu := ⟨0, atu⟩
  vtu := ⟨0, vtu⟩
  stu := ⟨0, stu⟩
  pvt := ⟨0, []⟩

/-- The 88E6352. -/
def chip88E6352 : Chip := ⟨"Marvell 88E6352".toList, opalFamily, 7⟩

/-- A table of one static entry, which is completely filled, is left, and so is
an empty one. -/
theorem dumpLoops_leave :
    let dev := exampleDev chip88E6352 [0, 0, 0x1e, 0, 0, 0] [] []
    showAtuLoop dev dev.atu.region [] = none ∧ showVtuLoop dev dev.vtu.region [] = none ∧
      ¬LoopsStay dev dev.atu.region dev.vtu.region dev.stu.region := by
  intro dev
  have hfull : ¬Terminated atuTable dev.chip.family.devAtuParse dev.atu.region := by
    rintro ⟨k, hk, hnone⟩
    have hone : atuTable.entries dev.atu.region = [atuTable.decode [0, 0, 0x1e, 0, 0, 0]] := by
      rw [KTable.entries, dif_pos (by decide), KTable.entries, dif_neg (by decide)]
      rfl
    rw [hone, List.mem_singleton] at hk
    subst hk
    exact absurd hnone (by decide)
  have hleave := dumpLoop_open hfull (showAtuEntry dev) []
  refine ⟨hleave, ?_, fun h => ?_⟩
  · rw [showVtuLoop, dumpLoop, dif_neg (by decide)]
  · have hstay := h.showAtu []
    rw [showAtuLoop, hleave] at hstay
    cases hstay

end MdioTools.Mvls
