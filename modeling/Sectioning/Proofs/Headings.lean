/-
What the headings of a build are like.

A heading has a tidy title and a level from 1 to 7, and its anchor is the place of
the command that gives it, in the document that it names.  The stages that see to
this are taken one by one: cleaning makes the title (`Text.isTidy_collapse`), the
form gives the name and what stands behind it (`At.exists_command`), and the place
of the backslash is genuine (`At.exists_line`).

A title has no line break, so a rendered outline has one line for each heading
(`Outline.lines_render`).
-/
import Sectioning.Outline.Drawing
import Sectioning.Proofs.Anchors
import Sectioning.Proofs.Printed
import Sectioning.Proofs.Reachability

namespace Sectioning

/-! ## Commands at their anchors -/

namespace Heading

/-- The command of the heading stands at its anchor in `b`.  Its backslash is
neither escaped nor behind a percent sign that is not escaped. -/
structure StandsIn (h : Heading) (b : Buffer) : Prop where
  exists_command : ∃ (k : Keyword) (us : List Char) (c : Char) (vs : List Char),
    k.level? = some h.level ∧
    b.text = us ++ '\\' :: (k.name.toList ++ c :: vs) ∧
    b.positionAt? (Text.byteLength us) = some h.anchor ∧
    Occurrence.endsName c = true ∧ c.isAlphanum = false
  exists_line : ∃ us vs, b.line? h.anchor.row = some (us ++ '\\' :: vs) ∧
    h.anchor.column = Text.byteLength us ∧ Text.backslashes us % 2 = 0 ∧
    ∀ ws xs, us = ws ++ '%' :: xs → Text.backslashes ws % 2 = 1

end Heading

namespace Occurrence

variable {b : Buffer} {o : Occurrence} {h : Heading}

theorem isAlphanum_of_endsName {c : Char} (hc : endsName c = true) : c.isAlphanum = false := by
  by_contra halpha
  rw [Bool.not_eq_false] at halpha
  have hsign : ∀ d : Char, d.isAlphanum = false → c ≠ d := fun d =>
    Manuscript.ne_of_isAlphanum halpha
  simp only [endsName, Manuscript.isBlank_of_isAlphanum halpha, Bool.false_or, Bool.or_eq_true,
    beq_iff_eq] at hc
  rcases hc with ((hc | hc) | hc) | hc
  · exact hsign '*' (by decide) hc
  · exact hsign '%' (by decide) hc
  · exact hsign '{' (by decide) hc
  · exact hsign '[' (by decide) hc

theorem At.exists_command (hat : o.At b) :
    ∃ us c vs, b.text = us ++ '\\' :: (o.keyword.name.toList ++ c :: vs) ∧
      b.positionAt? (Text.byteLength us) = some o.range.start ∧ endsName c = true := by
  obtain ⟨us, ws, form, hs, hform, -, -⟩ := hat
  obtain ⟨rest, part, rfl, hpart, -⟩ := exists_of_formAt? hform
  obtain ⟨c, vs, rfl, hc⟩ := exists_endsName_of_ending? hpart
  exact ⟨us, c, vs, hs.text_eq, hs.positionAt?, hc⟩

theorem At.exists_line (hat : o.At b) (hgenuine : o.isGenuine b = true) :
    ∃ us vs, b.line? o.range.start.row = some (us ++ '\\' :: vs) ∧
      o.range.start.column = Text.byteLength us ∧ Text.EndsAtComment us := by
  obtain ⟨us, ws, form, hs, hform, -, -⟩ := hat
  obtain ⟨rest, part, rfl, -, -⟩ := exists_of_formAt? hform
  obtain ⟨l, ls, hl⟩ := Text.exists_lines_eq_cons (o.keyword.name.toList ++ rest)
  have hplain : Mark.plain.after us = .plain := hs.isGenuine_iff.1 hgenuine
  refine ⟨Text.lastLine us, l, hs.line? (Text.lines_cons (by decide) hl), hs.column_eq, ?_⟩
  rw [Text.endsAtComment_iff (Text.notMem_lastLine us), Mark.after_lastLine]
  exact hplain

theorem entryOf_eq_heading {source : SourceId} {title : List Char}
    (hentry : o.entryOf source title = .heading h) :
    title ≠ [] ∧ h.title.toList = title ∧ o.keyword.level? = some h.level ∧
      h.anchor = o.range.start := by
  unfold entryOf at hentry
  split at hentry
  · cases hentry
  · next hne =>
    split at hentry
    · next level hlevel =>
      cases hentry
      refine ⟨fun hnil => hne ?_, String.toList_ofList, hlevel, rfl⟩
      rw [hnil]
      rfl
    · cases hentry

end Occurrence

namespace Keyword

theorem level?_bounds {k : Keyword} {level : Nat} (h : k.level? = some level) :
    1 ≤ level ∧ level ≤ 7 := by
  cases k <;> cases h <;> decide

end Keyword

namespace Buffer

/-- A heading among the entries of a buffer is as its command says. -/
theorem heading_spec {b : Buffer} {h : Heading} (hmem : .heading h ∈ b.entries) :
    Text.IsTidy h.title.toList ∧ (1 ≤ h.level ∧ h.level ≤ 7) ∧ h.StandsIn b := by
  obtain ⟨o, ho, hreading⟩ := List.mem_map.1 hmem
  have hat : o.At b := Occurrence.at_of_mem_scan ho
  have hgenuine : o.isGenuine b = true :=
    (Occurrence.reading_spec (by rw [hreading]; exact fun hr => by cases hr)).1
  unfold Occurrence.reading at hreading
  split at hreading
  · cases hreading
  · next r _ =>
    obtain ⟨hne, htitle, hlevel, hanchor⟩ := Occurrence.entryOf_eq_heading hreading
    obtain ⟨us, c, vs, htext, hplace, hc⟩ := hat.exists_command
    obtain ⟨ws, xs, hline, hcolumn, hends⟩ := hat.exists_line hgenuine
    rw [← hanchor] at hplace hline hcolumn
    refine ⟨?_, Keyword.level?_bounds hlevel, ?_, ?_⟩
    · rw [htitle]
      exact Text.isTidy_collapse hne
    · exact ⟨o.keyword, us, c, vs, hlevel, htext, hplace, hc, Occurrence.isAlphanum_of_endsName hc⟩
    · exact ⟨ws, xs, hline, hcolumn, hends.1, hends.2⟩

end Buffer

/-! ## Rendered lines -/

namespace Text

theorem lines_flatten {rows : List (List Char)} (h : ∀ r ∈ rows, '\n' ∉ r) :
    lines (rows.map (· ++ ['\n'])).flatten = rows ++ [[]] := by
  induction rows with
  | nil => rfl
  | cons r rows ih =>
    rw [List.forall_mem_cons] at h
    rw [List.map_cons, List.flatten_cons, List.append_assoc, List.singleton_append,
      lines_append_newline h.1, ih h.2, List.cons_append]

end Text

namespace Outline

/-- The line of the heading with the index `h.2`. -/
def row (o : Outline) (marked : Option Nat) (h : Heading × Nat) : List Char :=
  ((if marked = some h.2 then "> " else "  ") ++ o.lead h.2 ++ h.1.title).toList

theorem toList_render (o : Outline) (marked : Option Nat) :
    (o.render marked).toList =
      ((o.headings.zipIdx.map (o.row marked)).map (· ++ ['\n'])).flatten := by
  rw [render, String.toList_join, List.flatMap_map, List.map_map, List.flatMap]
  congr 1
  apply List.map_congr_left
  intro h _
  exact String.toList_append

theorem newline_notMem_lead (o : Outline) (i : Nat) : '\n' ∉ (o.lead i).toList := by
  rw [lead, String.toList_join, List.flatMap_map, List.mem_flatMap]
  rintro ⟨block, -, hmem⟩
  cases block <;> revert hmem <;> decide

theorem lines_render (o : Outline) (marked : Option Nat)
    (h : ∀ hd ∈ o.headings, '\n' ∉ hd.title.toList) :
    Text.lines (o.render marked).toList = o.headings.zipIdx.map (o.row marked) ++ [[]] := by
  rw [toList_render]
  apply Text.lines_flatten
  intro r hr
  obtain ⟨⟨hd, i⟩, hhd, rfl⟩ := List.mem_map.1 hr
  have hmark : '\n' ∉ (if marked = some i then "> " else "  ").toList := by
    split <;> decide
  have htitle := h hd (List.fst_mem_of_mem_zipIdx hhd)
  rw [row, String.toList_append, String.toList_append, List.mem_append, List.mem_append]
  rintro ((hmem | hmem) | hmem)
  · exact hmark hmem
  · exact o.newline_notMem_lead i hmem
  · exact htitle hmem

end Outline

/-! ## Documents -/

namespace Resolver

/-- There is one text for each identity. -/
def Consistent (resolve : Resolver) : Prop :=
  ∀ target asker b target' asker' b', resolve target asker = some b →
    resolve target' asker' = some b' → b.id = b'.id → b.text = b'.text

/-- `b` is the document of its identity when `root` is expanded: the root itself,
or a document that the resolver has under another identity. -/
def Holds (resolve : Resolver) (root b : Buffer) : Prop :=
  b = root ∨ b.id ≠ root.id ∧ ∃ target asker, resolve target asker = some b

theorem Consistent.eq_of_holds {resolve : Resolver} {root b b' : Buffer}
    (h : Consistent resolve) (hb : Holds resolve root b) (hb' : Holds resolve root b')
    (hid : b.id = b'.id) : b = b' := by
  rcases hb with rfl | ⟨hne, target, asker, hresolve⟩
  · rcases hb' with rfl | ⟨hne', -⟩
    · rfl
    · exact absurd hid.symm hne'
  · rcases hb' with rfl | ⟨-, target', asker', hresolve'⟩
    · exact absurd hid hne
    · have htext := h target asker b target' asker' b' hresolve hresolve' hid
      obtain ⟨id, text, lines, hlines, starts, hstarts⟩ := b
      obtain ⟨id', text', lines', hlines', starts', hstarts'⟩ := b'
      cases hid
      cases htext
      subst hlines hlines' hstarts hstarts'
      rfl

end Resolver

theorem Shelf.consistent_resolve (s : Shelf) : Resolver.Consistent s.resolve := by
  intro target asker b target' asker' b' hb hb' hid
  obtain ⟨text, htext, hbuffer⟩ := Shelf.text?_of_resolve hb
  obtain ⟨text', htext', hbuffer'⟩ := Shelf.text?_of_resolve hb'
  rw [hid, htext', Option.some.injEq] at htext
  rw [hbuffer, hbuffer', htext]
  rfl

/-! ## Builds -/

namespace Build

theorem Reached.holds {resolve : Resolver} {follow : Bool} {root : Buffer} {c : Call}
    (h : Reached resolve follow root c) :
    resolve.Holds root c.buffer := by
  rcases h.eq_root_or with rfl | hother
  · exact Or.inl rfl
  · exact Or.inr hother

/-- Each heading of a build is well formed and stands in the document that it
names, and a rendered outline of the build has a line for each heading. -/
theorem headings_wellFormed (resolve : Resolver) (follow : Bool) (root : Buffer) (depth : Nat)
    (build : Build) (hresolve : resolve.Consistent)
    (h : expand resolve follow depth [] (.ofBuffer root) [root.id] = .ok build) :
    (∀ hd ∈ build.headings, Text.IsTidy hd.title.toList ∧ (1 ≤ hd.level ∧ hd.level ≤ 7) ∧
      (∃ b, resolve.Holds root b ∧ b.id = hd.source) ∧
      ∀ b, resolve.Holds root b → b.id = hd.source → hd.StandsIn b) ∧
    ∀ marked, Text.lines ((Outline.ofHeadings build.headings).render marked).toList =
      build.headings.zipIdx.map ((Outline.ofHeadings build.headings).row marked) ++ [[]] := by
  have hmem : ∀ hd ∈ build.headings, ∃ c, Reached resolve follow root c ∧
      .heading hd ∈ c.buffer.entries := fun hd =>
    (gathers_of_expand_ofBuffer h).mem_headings_iff_reached.1
  refine ⟨fun hd hhd => ?_, fun marked => Outline.lines_render _ marked fun hd hhd => ?_⟩
  · obtain ⟨c, hc, hentry⟩ := hmem hd hhd
    obtain ⟨htitle, hlevel, hstands⟩ := Buffer.heading_spec hentry
    have hsource : c.buffer.id = hd.source := (c.buffer.tagged_entries hd hentry).symm
    refine ⟨htitle, hlevel, ⟨c.buffer, hc.holds, hsource⟩, fun b hb hid => ?_⟩
    rw [hresolve.eq_of_holds hb hc.holds (hid.trans hsource.symm)]
    exact hstands
  · obtain ⟨c, -, hentry⟩ := hmem hd hhd
    exact (Buffer.heading_spec hentry).1.notMem (by decide) (by decide)

/-- A shelf whose only document has its command behind a comment. -/
def leaflet : Shelf :=
  .ofList [("a.tex", "% \\section\x7bx\x7d\n\\part\x7b in\n a \x7d")]

/-- Two backslashes before the first command, and a comment in its title. -/
def leafletRoot : Buffer :=
  .ofString ⟨"main.tex"⟩ "\\\\\\section*\x7bA % x\x7d\n \\% B\x7d\\input\x7ba\x7d"

theorem leaflet_wellFormed :
    leaflet.library.build true (.ofBuffer leafletRoot) =
      .ok ⟨[⟨"A % B", 3, ⟨0, 2⟩, ⟨"main.tex"⟩⟩, ⟨"in a", 1, ⟨1, 0⟩, ⟨"a.tex"⟩⟩],
        [⟨"main.tex"⟩, ⟨"a.tex"⟩]⟩ ∧
    Text.IsTidy "A % B".toList ∧
    Heading.StandsIn ⟨"A % B", 3, ⟨0, 2⟩, ⟨"main.tex"⟩⟩ leafletRoot ∧
    Heading.StandsIn ⟨"in a", 1, ⟨1, 0⟩, ⟨"a.tex"⟩⟩
      (.ofString ⟨"a.tex"⟩ "% \\section\x7bx\x7d\n\\part\x7b in\n a \x7d") := by
  have h : leaflet.library.build true (.ofBuffer leafletRoot) =
      .ok ⟨[⟨"A % B", 3, ⟨0, 2⟩, ⟨"main.tex"⟩⟩, ⟨"in a", 1, ⟨1, 0⟩, ⟨"a.tex"⟩⟩],
        [⟨"main.tex"⟩, ⟨"a.tex"⟩]⟩ := by
    decide +kernel
  have hexpand := Library.build_eq_ok_iff.1 h
  rw [Shelf.resolve_library] at hexpand
  have hall := (headings_wellFormed _ _ _ _ _ leaflet.consistent_resolve hexpand).1
  refine ⟨h, (hall _ List.mem_cons_self).1, ?_, ?_⟩
  · exact (hall _ List.mem_cons_self).2.2.2 leafletRoot (Or.inl rfl) rfl
  · refine (hall _ (List.mem_cons_of_mem _ List.mem_cons_self)).2.2.2 _ ?_ rfl
    exact Or.inr ⟨by decide, "a", ⟨"main.tex"⟩, rfl⟩

end Build
end Sectioning
