/-
Settings that are found and settings that are named.

The standard file is read without being asked for, and any file can be named.  A file
that is named must have the label of a frequency, and `loadFromWith_eq_ok_iff` says which
files are accepted.  The standard file is taken as it is.  So the two ways of reading it agree
unless it holds settings with a label that names no frequency (`load_agrees_iff`).  Which labels
name one is said by `Frequency.Spells`.  How a text is read as settings does not matter, so
`parse` stands for any such reading.
-/
import Mathlib.Data.List.Basic
import Sectioning.Files.Record
import Sectioning.Settings.Basic

namespace Sectioning

/-! ## Labels -/

namespace Frequency

/-- The label of a frequency in small letters and without spaces. -/
def word : Frequency → String
  | high => "high"
  | medium => "medium"
  | low => "low"
  | onSaveOnly => "onsaveonly"

/-- The letters of `word` in either case, with spaces, hyphens and underscores anywhere. -/
inductive Spells : List Char → List Char → Prop
  | nil : Spells [] []
  | separator {c : Char} {cs word : List Char} (h : c = ' ' ∨ c = '-' ∨ c = '_')
      (rest : Spells cs word) : Spells (c :: cs) word
  | letter {c w : Char} {cs word : List Char} (h : c.toLower = w) (rest : Spells cs word) :
      Spells (c :: cs) (w :: word)

variable {cs word : List Char} {label : String} {f : Frequency}

theorem spells_iff (hword : ' ' ∉ word ∧ '-' ∉ word ∧ '_' ∉ word) :
    Spells cs word ↔
      (cs.filter fun c => c != ' ' && c != '-' && c != '_').map Char.toLower = word := by
  constructor
  · intro h
    induction h with
    | nil => rfl
    | @separator c cs word h rest ih =>
      rw [List.filter_cons_of_neg (by rcases h with rfl | rfl | rfl <;> decide)]
      exact ih hword
    | @letter c w cs word h rest ih =>
      simp only [List.mem_cons, not_or] at hword
      -- a separator would be a letter of the word
      have hletter : (c != ' ' && c != '-' && c != '_') = true := by
        simp only [Bool.and_eq_true, bne_iff_ne]
        refine ⟨⟨?_, ?_⟩, ?_⟩
        · rintro rfl
          exact hword.1.1 h
        · rintro rfl
          exact hword.2.1.1 h
        · rintro rfl
          exact hword.2.2.1 h
      rw [List.filter_cons, if_pos hletter, List.map_cons, h,
        ih ⟨hword.1.2, hword.2.1.2, hword.2.2.2⟩]
  · rintro rfl
    clear hword
    induction cs with
    | nil => exact .nil
    | cons c cs ih =>
      by_cases hc : c = ' ' ∨ c = '-' ∨ c = '_'
      · rw [List.filter_cons_of_neg (by rcases hc with rfl | rfl | rfl <;> decide)]
        exact .separator hc ih
      · rw [not_or, not_or] at hc
        rw [List.filter_cons_of_pos (by simp [hc]), List.map_cons]
        exact .letter rfl ih

theorem spells_word_iff : Spells label.toList f.word.toList ↔ fold label = f.word := by
  rw [spells_iff (by cases f <;> decide), fold, ← String.toList_inj, String.toList_ofList]

theorem ofLabel?_eq_some_iff : ofLabel? label = some f ↔ Spells label.toList f.word.toList := by
  have hword : ∀ g : Frequency, fold g.label = g.word := by
    intro g
    cases g <;> decide
  rw [spells_word_iff]
  unfold ofLabel?
  constructor
  · intro h
    have hfold := List.find?_some h
    rw [beq_iff_eq] at hfold
    rw [← hfold, hword]
  · intro h
    rw [h]
    cases f <;> decide

end Frequency

/-! ## Reading files -/

namespace Settings

/-- The label of the settings spells a frequency. -/
def NamesFrequency (s : Settings) : Prop :=
  ∃ f : Frequency, Frequency.Spells s.updateFrequency.toList f.word.toList

/-- Reading the standard file gives what naming it gives, or the standard settings where
naming it fails. -/
def LoadersAgree (parse : String → Except Error Settings) (disk : Disk) : Prop :=
  (∀ s, loadFromWith parse disk standardFile = .ok s → loadWith parse disk = s) ∧
    ((∀ s, loadFromWith parse disk standardFile ≠ .ok s) → loadWith parse disk = standard)

/-- The file at `path` is a text that holds the settings `s`. -/
def Holds (parse : String → Except Error Settings) (disk : Disk) (path : String)
    (s : Settings) : Prop :=
  ∃ text, disk.read path = .ok text ∧ parse text = .ok s

variable {parse : String → Except Error Settings} {disk : Disk} {path : String} {s : Settings}

theorem exists_frequency_iff : (∃ f, s.frequency = .ok f) ↔ s.NamesFrequency := by
  refine exists_congr fun f => ?_
  rw [← Frequency.ofLabel?_eq_some_iff, frequency, Frequency.ofLabel]
  cases Frequency.ofLabel? s.updateFrequency with
  | none => simp
  | some g => simp

theorem namesFrequency_iff :
    s.NamesFrequency ↔ ∃ f, Frequency.ofLabel? s.updateFrequency = some f :=
  exists_congr fun _ => Frequency.ofLabel?_eq_some_iff.symm

theorem namesFrequency_standard : standard.NamesFrequency :=
  namesFrequency_iff.2 ⟨.medium, by decide⟩

theorem loadFromWith_of_holds (h : Holds parse disk path s) (hname : s.NamesFrequency) :
    loadFromWith parse disk path = .ok s := by
  obtain ⟨text, hread, hs⟩ := h
  obtain ⟨f, hf⟩ := namesFrequency_iff.1 hname
  simp only [loadFromWith, hread, hs, hf]

theorem loadFromWith_of_not_namesFrequency (h : Holds parse disk path s)
    (hname : ¬ s.NamesFrequency) :
    loadFromWith parse disk path = .error (.settings (.unknownFrequency s.updateFrequency)) := by
  obtain ⟨text, hread, hs⟩ := h
  have hnone : Frequency.ofLabel? s.updateFrequency = none :=
    Option.eq_none_iff_forall_ne_some.2 fun f hf => hname (namesFrequency_iff.2 ⟨f, hf⟩)
  simp only [loadFromWith, hread, hs, hnone]

/-- A file that is named is accepted exactly if it holds settings whose label names a
frequency. -/
theorem loadFromWith_eq_ok_iff :
    loadFromWith parse disk path = .ok s ↔ Holds parse disk path s ∧ s.NamesFrequency := by
  refine ⟨fun h => ?_, fun h => loadFromWith_of_holds h.1 h.2⟩
  unfold loadFromWith at h
  split at h
  · cases h
  · next text hread =>
    split at h
    · cases h
    · next s' hs =>
      split at h
      · cases h
      · next f hf =>
        cases h
        exact ⟨⟨text, hread, hs⟩, namesFrequency_iff.2 ⟨f, hf⟩⟩

theorem loadWith_of_holds (h : Holds parse disk standardFile s) : loadWith parse disk = s := by
  obtain ⟨text, hread, hs⟩ := h
  simp only [loadWith, hread, hs]

theorem loadWith_of_not_holds (h : ∀ s, ¬ Holds parse disk standardFile s) :
    loadWith parse disk = standard := by
  unfold loadWith
  split
  · rfl
  · next text hread =>
    split
    · rfl
    · next s hs => exact absurd ⟨text, hread, hs⟩ (h s)

/-! ## Agreement -/

theorem loadersAgree_iff :
    LoadersAgree parse disk ↔ ∀ s, Holds parse disk standardFile s → s.NamesFrequency := by
  constructor
  · rintro ⟨-, hstandard⟩ s hs
    by_contra hname
    -- the settings would be the standard ones, and these have a label
    have hfails : ∀ t, loadFromWith parse disk standardFile ≠ .ok t := by
      intro t ht
      rw [loadFromWith_of_not_namesFrequency hs hname] at ht
      cases ht
    have hload := hstandard hfails
    rw [loadWith_of_holds hs] at hload
    exact hname (hload ▸ namesFrequency_standard)
  · intro h
    refine ⟨fun s hs => loadWith_of_holds (loadFromWith_eq_ok_iff.1 hs).1, fun hfails => ?_⟩
    refine loadWith_of_not_holds fun s hs => hfails s ?_
    exact loadFromWith_of_holds hs (h s hs)

theorem exists_frequency_loadWith_iff :
    (∃ f, (loadWith parse disk).frequency = .ok f) ↔
      ∀ s, Holds parse disk standardFile s → s.NamesFrequency := by
  rw [exists_frequency_iff]
  constructor
  · intro h s hs
    rw [loadWith_of_holds hs] at h
    exact h
  · intro h
    by_cases hsome : ∃ s, Holds parse disk standardFile s
    · obtain ⟨s, hs⟩ := hsome
      rw [loadWith_of_holds hs]
      exact h s hs
    · rw [loadWith_of_not_holds (not_exists.1 hsome)]
      exact namesFrequency_standard

/-- Reading the standard file agrees with naming it, and gives settings with a known
frequency, unless the file holds settings whose label names none.  Such settings are
refused when the file is named and taken as they are when it is not. -/
theorem load_agrees_iff (parse : String → Except Error Settings) (disk : Disk) :
    (LoadersAgree parse disk ↔ ∀ s, Holds parse disk standardFile s → s.NamesFrequency) ∧
    ((∃ f, (loadWith parse disk).frequency = .ok f) ↔
      ∀ s, Holds parse disk standardFile s → s.NamesFrequency) ∧
    (∀ s, loadFromWith parse disk standardFile = .ok s ↔
      Holds parse disk standardFile s ∧ s.NamesFrequency) ∧
    (∀ s, Holds parse disk standardFile s → loadWith parse disk = s) ∧
    (∀ s, Holds parse disk standardFile s → ¬ s.NamesFrequency →
      loadFromWith parse disk standardFile =
        .error (.settings (.unknownFrequency s.updateFrequency))) ∧
    ((∀ s, ¬ Holds parse disk standardFile s) → loadWith parse disk = standard) :=
  ⟨loadersAgree_iff, exists_frequency_loadWith_iff, fun _ => loadFromWith_eq_ok_iff,
    fun _ => loadWith_of_holds, fun _ => loadFromWith_of_not_namesFrequency, loadWith_of_not_holds⟩

/-- A disk with a standard file whose label names no frequency. -/
def mislabelled : Disk :=
  FileRecord.disk
    [⟨standardFile, some "/latex-outline.toml", .ok "update_frequency = \"Sometimes\""⟩]

theorem unknown_label_taken :
    ¬ LoadersAgree ofToml mislabelled ∧
    load mislabelled = ⟨"Sometimes", true, ["tex"]⟩ ∧
    loadFrom mislabelled standardFile = .error (.settings (.unknownFrequency "Sometimes")) ∧
    (load mislabelled).frequency = .error (.unknownFrequency "Sometimes") := by
  have hload : load mislabelled = ⟨"Sometimes", true, ["tex"]⟩ := by decide +kernel
  have hrefused : loadFrom mislabelled standardFile =
      .error (.settings (.unknownFrequency "Sometimes")) := by decide +kernel
  refine ⟨fun h => ?_, hload, hrefused, by decide +kernel⟩
  have hstandard : load mislabelled = standard := h.2 fun s hs => by
    cases hrefused.symm.trans hs
  rw [hload] at hstandard
  exact absurd hstandard (by decide)

end Settings
end Sectioning
