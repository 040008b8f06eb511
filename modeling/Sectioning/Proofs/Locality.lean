/-
What stands behind an argument does not matter.

A reader is local where it stops: from every cursor that sees the same spots up to there
it comes to the same spot (`Cursor.LocalAt`).  The steps are local because they are steps on
the stream, the search for the end of a group is because the first delimiter that closes
it is found by counting what is before it, and local readers in a row are local
(`LocalAt.bind`).  So a reader on the delimiter of a command finds the argument from what it
sees up to the closing brace.

Up to a character that is not blank, a reader in a text sees the same whatever comes after
it (`exists_stream_eq_append`).  This would not hold for a blank character, because a line
below that is blank so far may be filled or not.  Whether the command counts depends on what is
before it, and that is before the closing brace.
-/
import Sectioning.Proofs.Closers
import Sectioning.Proofs.Parity
import Sectioning.Proofs.Strays

namespace Sectioning
namespace Cursor

/-! ## Local readers -/

/-- Where `f` leads from `c` depends on the spots up to there alone. -/
def LocalAt (f : Cursor → Option Cursor) (c : Cursor) : Prop :=
  ∀ d, f c = some d → ∃ us, c.stream = us ++ d.stream ∧
    ∀ c' s, c'.stream = us ++ s → s.head? = some d.spot → ∃ d', f c' = some d' ∧ d'.stream = s

variable {f g : Cursor → Option Cursor} {c c' d : Cursor} {us s : List Spot}

theorem exists_of_stream? {found : Option Cursor} (h : stream? found = s)
    (hs : s.head? = some d.spot) : ∃ d', found = some d' ∧ d'.stream = s := by
  cases found with
  | none =>
    subst h
    cases hs
  | some d' => exact ⟨d', rfl, h⟩

theorem head?_append_of_stream (h : c.stream = us ++ d.stream) (hs : s.head? = some d.spot) :
    (us ++ s).head? = some c.spot := by
  have hhead : (us ++ s).head? = (us ++ d.stream).head? := by
    rw [List.head?_append, List.head?_append, hs]
    rfl
  rw [hhead, ← h]
  rfl

/-- A cursor that sees the same spots up to `d` stands on the same one. -/
theorem spot_eq_of_stream (h : c.stream = us ++ d.stream) (h' : c'.stream = us ++ s)
    (hs : s.head? = some d.spot) : c'.spot = c.spot := by
  have hhead := head?_append_of_stream h hs
  rw [← h'] at hhead
  exact Option.some.inj hhead

theorem LocalAt.of_eq (h : LocalAt g c) (hfg : ∀ c', c'.spot = c.spot → f c' = g c') :
    LocalAt f c := by
  intro d hd
  rw [hfg c rfl] at hd
  obtain ⟨us, hstream, hlocal⟩ := h d hd
  refine ⟨us, hstream, fun c' s hc' hs => ?_⟩
  rw [hfg c' (spot_eq_of_stream hstream hc' hs)]
  exact hlocal c' s hc' hs

theorem localAt_some (c : Cursor) : LocalAt some c := by
  intro d hd
  cases hd
  exact ⟨[], rfl, fun c' s hc' _ => ⟨c', rfl, hc'⟩⟩

theorem LocalAt.bind (hf : LocalAt f c) (hg : ∀ d, f c = some d → LocalAt g d) :
    LocalAt (fun c => (f c).bind g) c := by
  intro e he
  obtain ⟨d, hd, he⟩ := Option.bind_eq_some_iff.1 he
  obtain ⟨us, hus, hlocal⟩ := hf d hd
  obtain ⟨ws, hws, hlocal'⟩ := hg d hd e he
  refine ⟨us ++ ws, by rw [hus, hws, List.append_assoc], fun c' s hc' hs => ?_⟩
  obtain ⟨d', hd', hstream⟩ := hlocal c' (ws ++ s) (by rw [hc', List.append_assoc])
    (head?_append_of_stream hws hs)
  obtain ⟨e', he', hstream'⟩ := hlocal' d' s hstream hs
  exact ⟨e', Option.bind_eq_some_iff.2 ⟨d', hd', he'⟩, hstream'⟩

/-! ## Steps -/

theorem localAt_advance? (c : Cursor) : LocalAt advance? c := by
  intro d hd
  refine ⟨[c.spot], by rw [stream, ahead_of_advance? hd]; rfl, fun c' s hc' hs => ?_⟩
  have hahead : c'.ahead = s := (List.cons.inj hc').2
  exact exists_of_stream? ((stream?_advance? c').trans hahead) hs

theorem localAt_nextLine? (c : Cursor) : LocalAt nextLine? c := by
  intro d hd
  have hrow := row_lt_of_nextLine? hd
  have hnext := stream?_nextLine? c
  rw [hd] at hnext
  refine ⟨c.spot :: c.ahead.takeWhile fun x => x.place.row == c.position.row, ?_, ?_⟩
  · show c.spot :: c.ahead = c.spot :: (_ ++ stream? (some d))
    rw [hnext, List.takeWhile_append_dropWhile]
  · intro c' s hc' hs
    obtain ⟨hspot, hahead⟩ := List.cons.inj hc'
    have hplace : c'.position = c.position := congrArg Spot.place hspot
    refine exists_of_stream? ((stream?_nextLine? c').trans ?_) hs
    have hrows : ∀ x ∈ c.ahead.takeWhile fun x => x.place.row == c.position.row,
        (x.place.row == c.position.row) = true := by
      intro x hx
      have hsame := List.mem_takeWhile_imp hx
      exact hsame
    rw [hahead, hplace]
    refine (List.dropWhile_append_of_pos hrows).trans ?_
    -- the spot of `d` is on another row
    cases s with
    | nil => rfl
    | cons x s =>
      rw [List.head?_cons, Option.some.injEq] at hs
      subst hs
      rw [List.dropWhile_cons_of_neg]
      rw [beq_iff_eq]
      exact Nat.ne_of_gt hrow

theorem localAt_advanceBy? (n : Nat) (c : Cursor) : LocalAt (advanceBy? n) c := by
  induction n generalizing c with
  | zero => exact localAt_some c
  | succ n ih => exact (localAt_advance? c).bind fun d _ => ih d

theorem octet_eq_of_spot (h : c'.spot = c.spot) : c'.octet = c.octet :=
  congrArg Spot.octet h

theorem localAt_skipBlank? (c : Cursor) : LocalAt skipBlank? c := by
  induction hn : c.remaining using Nat.strongRecOn generalizing c with
  | ind n ih =>
    cases ho : c.octet with
    | later =>
      refine (localAt_some c).of_eq fun c' hc' => ?_
      exact skipBlank?_later ((octet_eq_of_spot hc').trans ho)
    | first ch =>
      have hfirst : ∀ c' : Cursor, c'.spot = c.spot → c'.octet = .first ch :=
        fun c' hc' => (octet_eq_of_spot hc').trans ho
      by_cases hcom : ch = '%'
      · have hrest : ∀ d, c.nextLine? = some d → LocalAt skipBlank? d :=
          fun d hd => ih d.remaining (hn ▸ nextLine?_remaining hd) d rfl
        refine ((localAt_nextLine? c).bind hrest).of_eq fun c' hc' => ?_
        rw [skipBlank?_first (hfirst c' hc'), if_pos hcom]
      · by_cases hblank : isBlank ch = true
        · have hrest : ∀ d, advanceBy? ch.utf8Size c = some d → LocalAt skipBlank? d := by
            intro d hd
            have hlt := advanceBy?_remaining hd
            have hpos := ch.utf8Size_pos
            exact ih d.remaining (by omega) d rfl
          refine ((localAt_advanceBy? ch.utf8Size c).bind hrest).of_eq fun c' hc' => ?_
          rw [skipBlank?_first (hfirst c' hc'), if_neg hcom, if_pos hblank]
        · refine (localAt_some c).of_eq fun c' hc' => ?_
          rw [skipBlank?_first (hfirst c' hc'), if_neg hcom, if_neg hblank]

/-- A group is closed by what is before its end. -/
theorem localAt_findClose? (k : Delimiter) (c : Cursor) : LocalAt (findClose? k .zero) c := by
  intro d hd
  obtain ⟨us, hfirst, hstream⟩ := findClose?_eq_some hd
  refine ⟨us, hstream, fun c' s hc' hs => ?_⟩
  obtain ⟨-, -, hcloses, hnone⟩ := Spot.closesFirst_iff.1 hfirst
  obtain ⟨vs, rfl⟩ : ∃ vs, s = d.spot :: vs := by
    cases s with
    | nil => cases hs
    | cons x vs => exact ⟨vs, by rw [Option.some.inj hs]⟩
  have hfirst' : Spot.ClosesFirst k c'.stream us d.spot :=
    Spot.closesFirst_iff.2 ⟨vs, hc', hcloses, hnone⟩
  cases hd' : findClose? k .zero c' with
  | none => exact absurd hfirst' (findClose?_eq_none_iff.1 hd' us d.spot)
  | some d' =>
    obtain ⟨us', hus', hstream'⟩ := findClose?_eq_some hd'
    obtain ⟨rfl, -⟩ := hus'.unique hfirst'
    exact ⟨d', rfl, List.append_cancel_left (hstream'.symm.trans hc')⟩

theorem localAt_passShortTitle? (c : Cursor) : LocalAt passShortTitle? c := by
  by_cases h : c.octet = .first '['
  · have hlocal : LocalAt skipShortTitle? c :=
      (localAt_advance? c).bind fun start _ =>
        (localAt_findClose? .bracket start).bind fun close _ =>
          (localAt_advance? close).bind fun after _ => localAt_skipBlank? after
    refine hlocal.of_eq fun c' hc' => ?_
    rw [passShortTitle?, octet_eq_of_spot hc', if_pos h]
  · refine (localAt_some c).of_eq fun c' hc' => ?_
    rw [passShortTitle?, octet_eq_of_spot hc', if_neg h]

/-! ## The stretch of an argument -/

/-- `g` reads the stretch `r`, which ends at the closing brace `close`, from the spots
`us` up to there. -/
structure ReadsUpTo (g : Cursor → Option Range) (c : Cursor) (us : List Spot) (close : Cursor)
    (r : Range) : Prop where
  stream_eq : c.stream = us ++ close.stream
  octet_eq : close.octet = .first '}'
  stop_eq : r.stop = close.position
  lt : c.position < close.position
  on : ∀ b, c.On b → close.On b
  transfer : ∀ c' s, c'.stream = us ++ s → s.head? = some close.spot → g c' = some r

theorem position_le_of_stream (h : c.stream = us ++ d.stream) : c.position ≤ d.position := by
  have hmem : d.spot ∈ c.spot :: c.ahead := by
    rw [← stream, h]
    exact List.mem_append_right us List.mem_cons_self
  rw [Position.le_iff]
  rcases List.mem_cons.1 hmem with heq | hahead
  · have hplace : d.position = c.position := congrArg Spot.place heq
    exact Or.inr ⟨by rw [hplace], by rw [hplace]⟩
  · have hlt := position_lt_of_mem_ahead hahead
    rw [Position.lt_iff] at hlt
    show _ < d.spot.place.row ∨ _ = d.spot.place.row ∧ _ ≤ d.spot.place.column
    omega

theorem LocalAt.readsUpTo_bind {g : Cursor → Option Range} {close : Cursor} {r : Range}
    (hf : LocalAt f c) (hd : f c = some d) (hon : ∀ b, c.On b → d.On b)
    (hg : ReadsUpTo g d us close r) :
    ∃ ws, ReadsUpTo (fun c => (f c).bind g) c ws close r := by
  obtain ⟨ws, hws, hlocal⟩ := hf d hd
  have hstream := hg.stream_eq
  refine ⟨ws ++ us, by rw [hws, hstream, List.append_assoc], hg.octet_eq, hg.stop_eq, ?_,
    fun b hb => hg.on b (hon b hb), fun c' s hc' hs => ?_⟩
  · have hle := position_le_of_stream hws
    have hlt := hg.lt
    rw [Position.le_iff] at hle
    rw [Position.lt_iff] at hlt ⊢
    omega
  · obtain ⟨d', hd', hstream'⟩ := hlocal c' (us ++ s) (by rw [hc', List.append_assoc])
      (head?_append_of_stream hstream hs)
    exact Option.bind_eq_some_iff.2 ⟨d', hd', hg.transfer d' s hstream' hs⟩

theorem exists_readsUpTo_bracedRange? {r : Range} (h : c.bracedRange? = some r) :
    ∃ us close, ReadsUpTo bracedRange? c us close r := by
  unfold bracedRange? at h
  split at h
  · next hopen =>
    obtain ⟨start, hstart, h⟩ := Option.bind_eq_some_iff.1 h
    obtain ⟨close, hclose, rfl⟩ := Option.map_eq_some_iff.1 h
    obtain ⟨us, hus, hlocal⟩ := localAt_advance? c start hstart
    obtain ⟨ws, hws, hlocal'⟩ := localAt_findClose? .brace start close hclose
    have hle := position_le_of_stream hws
    have hcloser : close.octet = .first '}' := by
      obtain ⟨_, hfirst, _⟩ := findClose?_eq_some hclose
      exact hfirst.closes.octet_eq
    have hstream : c.stream = us ++ ws ++ close.stream := by
      rw [hus, hws, List.append_assoc]
    refine ⟨us ++ ws, close, hstream, hcloser, ?_, ?_,
      fun b hb => ((hb.advance? hstart).1.findClose? hclose).1, fun c' s hc' hs => ?_⟩
    · rw [Range.between, if_pos hle]
    · have hmem : close.spot ∈ c.ahead := by
        rw [ahead_of_advance? hstart, hws]
        exact List.mem_append_right ws List.mem_cons_self
      exact position_lt_of_mem_ahead hmem
    · have hoctet := octet_eq_of_spot (spot_eq_of_stream hstream hc' hs)
      obtain ⟨start', hstart', hs'⟩ := hlocal c' (ws ++ s) (by rw [hc', List.append_assoc])
        (head?_append_of_stream hws hs)
      obtain ⟨close', hclose', rfl⟩ := hlocal' start' s hs' hs
      have hfrom : start'.position = start.position :=
        congrArg Spot.place (spot_eq_of_stream hws hs' hs)
      have hto : close'.position = close.position := congrArg Spot.place (Option.some.inj hs)
      rw [bracedRange?, hoctet, if_pos hopen, hstart', Option.bind_some, hclose', Option.map_some,
        hfrom, hto]
  · cases h

theorem exists_readsUpTo_argument? {r : Range} (h : c.argument? = some r) :
    ∃ us close, ReadsUpTo argument? c us close r := by
  obtain ⟨d, hd, h⟩ := Option.bind_eq_some_iff.1 h
  obtain ⟨e, he, h⟩ := Option.bind_eq_some_iff.1 h
  obtain ⟨us, close, hreads⟩ := exists_readsUpTo_bracedRange? h
  obtain ⟨ws, hreads⟩ :=
    (localAt_passShortTitle? d).readsUpTo_bind he (fun b hb => hb.passShortTitle? he) hreads
  obtain ⟨xs, hreads⟩ :=
    (localAt_skipBlank? c).readsUpTo_bind hd (fun b hb => hb.skipBlank? hd) hreads
  exact ⟨xs, close, hreads⟩

end Cursor

/-! ## Buffers with the same beginning -/

theorem Text.isGenuine_append {os : List Octet} {n : Nat} (h : n ≤ os.length) (os' : List Octet) :
    isGenuine (os ++ os') n = isGenuine os n := by
  have hle : n ≤ (os ++ os').length := by
    rw [List.length_append]
    omega
  rw [Bool.eq_iff_iff, isGenuine_iff_isCommandPlace hle, isGenuine_iff_isCommandPlace h]
  exact isCommandPlace_append h os'

namespace Buffer

variable {b b' : Buffer} {p q : Position} {us vs vs' l : List Char} {ls : List (List Char)}

theorem exists_lines_of_place (hq : q = Position.start.afterAll us) :
    ∃ above : List (List Char), above.length = q.row ∧ ∀ (b : Buffer) (vs l : List Char)
      (ls : List (List Char)), b.Splits q us vs → Text.lines vs = l :: ls →
        b.lines = above ++ (Text.lastLine us ++ l) :: ls := by
  obtain ⟨above, hlength, hlines⟩ := Text.exists_lines_append us
  refine ⟨above, ?_, fun b vs l ls hs hl => ?_⟩
  · rw [hq, Position.row_afterAll, hlength]
    exact (Nat.zero_add _).symm
  · rw [b.lines_eq, hs.text_eq, hlines vs l ls hl]

theorem Splits.stream_eq (hs : b.Splits q us vs) (hl : Text.lines vs = l :: ls) :
    b.stream q =
      Text.spots q.row q.column (Text.octets l) ++ Text.filledSpots (q.row + 1) ls := by
  rw [stream, hs.drop_lines hl]
  simp only [hs.column_eq, Text.drop_octets]

/-- What a reader at `p` sees up to a character that is not blank does not depend on what
comes after it. -/
theorem exists_stream_eq_append {ch : Char} (hq : q = Position.start.afterAll us) (hle : p ≤ q)
    (hch : isBlank ch = false) :
    ∃ ws, ∀ (b : Buffer) (vs : List Char), b.Splits q us (ch :: vs) →
      b.stream p = ws ++ b.stream q := by
  have hne : ch ≠ '\n' := by
    rintro rfl
    cases hch
  obtain ⟨above, hrow, hlines⟩ := exists_lines_of_place hq
  rcases hle with hlt | ⟨heq, hcolumn⟩
  · -- the line of `p` ends before `q`, and the line of `q` is filled
    obtain ⟨m, more, hm⟩ : ∃ m more, above.drop p.row = m :: more := by
      refine List.exists_cons_of_ne_nil ?_
      rw [ne_eq, List.drop_eq_nil_iff]
      omega
    have hlength : p.row + 1 + more.length = q.row := by
      have hdrop := congrArg List.length hm
      rw [List.length_drop, List.length_cons] at hdrop
      omega
    refine ⟨Text.spots p.row p.column ((Text.octets m).drop p.column) ++
      Text.filledSpots (p.row + 1) more ++ Text.spots q.row 0 (Text.octets (Text.lastLine us)),
      fun b vs hs => ?_⟩
    obtain ⟨l, ls, hl⟩ := Text.exists_lines_eq_cons vs
    have hl' := Text.lines_cons hne hl
    have hdrop : b.lines.drop p.row = m :: (more ++ (Text.lastLine us ++ ch :: l) :: ls) := by
      rw [hlines b _ _ _ hs hl', List.drop_append_of_le_length (by omega), hm]
      rfl
    have hfilled : ¬ Text.isAllBlank (Text.lastLine us ++ ch :: l) = true := by
      rw [Text.isAllBlank, List.all_append, List.all_cons, hch]
      simp
    rw [stream, hdrop, hs.stream_eq hl']
    simp only [Text.filledSpots_append, hlength, Text.filledSpots, if_neg hfilled,
      Text.octets_append, Text.spots_append, Nat.zero_add, Text.length_octets, ← hs.column_eq,
      List.append_assoc]
  · refine ⟨Text.spots q.row p.column ((Text.octets (Text.lastLine us)).drop p.column),
      fun b vs hs => ?_⟩
    obtain ⟨l, ls, hl⟩ := Text.exists_lines_eq_cons vs
    have hl' := Text.lines_cons hne hl
    have hlast : p.column ≤ (Text.octets (Text.lastLine us)).length := by
      rwa [Text.length_octets, ← hs.column_eq]
    have hsum : p.column + ((Text.octets (Text.lastLine us)).length - p.column) = q.column := by
      rw [hs.column_eq, ← Text.length_octets]
      omega
    rw [stream, heq, hs.drop_lines hl', hs.stream_eq hl']
    simp only [Text.octets_append, List.drop_append_of_le_length hlast, Text.spots_append,
      List.length_drop, hsum, List.append_assoc]

theorem Splits.head?_stream {ch : Char} (hs : b.Splits q us (ch :: vs)) (hch : ch ≠ '\n') :
    (b.stream q).head? = some ⟨q, .first ch⟩ := by
  obtain ⟨l, ls, hl⟩ := Text.exists_lines_eq_cons vs
  rw [hs.stream_eq (Text.lines_cons hch hl)]
  rfl

end Buffer

/-- Up to a character that is not blank, a reader at the same place of another text sees the
same if the texts are the same up to there. -/
theorem Cursor.exists_cursorAt?_of_splits {b b' : Buffer} {c close : Cursor} {p : Position}
    {ch : Char} {us vs vs' : List Char} {ws : List Spot} (hc : b.cursorAt? p = some c)
    (hclose : close.On b) (hoctet : close.octet = .first ch) (hch : isBlank ch = false)
    (hstream : c.stream = ws ++ close.stream) (hs : b.Splits close.position us (ch :: vs))
    (hs' : b'.Splits close.position us (ch :: vs')) :
    ∃ c' s, b'.cursorAt? p = some c' ∧ c'.stream = ws ++ s ∧ s.head? = some close.spot := by
  have hplace := (Buffer.cursorAt?_eq_some_iff.1 hc).1
  have hle : p ≤ close.position := hplace ▸ position_le_of_stream hstream
  obtain ⟨xs, hxs⟩ := Buffer.exists_stream_eq_append hs.place_eq hle hch
  have hsees : ws ++ close.stream = xs ++ close.stream := by
    rw [← hstream, stream_of_cursorAt? hc, hxs b vs hs,
      stream_of_cursorAt? (Buffer.cursorAt?_eq_some_iff.2 ⟨rfl, hclose⟩)]
  obtain rfl := List.append_cancel_right hsees
  have hne : ch ≠ '\n' := by
    rintro rfl
    cases hch
  have hlast : (b'.stream close.position).head? = some close.spot := by
    rw [hs'.head?_stream hne, spot, hoctet]
  have hhead : (b'.stream p).head? = some c.spot := by
    rw [hxs b' vs' hs', head?_append_of_stream hstream hlast]
  obtain ⟨x, hx⟩ := List.head?_eq_some_iff.1 hhead
  obtain ⟨c', hc'⟩ := exists_cursorAt? hx hplace
  exact ⟨c', b'.stream close.position, hc', (stream_of_cursorAt? hc').trans (hxs b' vs' hs'), hlast⟩

/-! ## Bytes -/

namespace Buffer

variable {b b' : Buffer} {q : Position} {us vs : List Char}

/-- The bytes of the text. -/
def bytes (b : Buffer) : List UInt8 :=
  (String.ofList b.text).toUTF8.data.toList

theorem bytes_eq (b : Buffer) : b.bytes = b.text.flatMap String.utf8EncodeChar := by
  rw [bytes, String.toUTF8, String.toByteArray_ofList, List.utf8Encode, List.data_toByteArray]

theorem length_flatMap_utf8EncodeChar (us : List Char) :
    (us.flatMap String.utf8EncodeChar).length = Text.byteLength us := by
  induction us with
  | nil => rfl
  | cons u us ih =>
    rw [List.flatMap_cons, List.length_append, String.length_utf8EncodeChar, ih]
    rfl

theorem Splits.bytes_eq {ch : Char} (hs : b.Splits q us (ch :: vs)) (hch : ch.utf8Size = 1) :
    b.bytes = us.flatMap String.utf8EncodeChar ++
      ch.toUInt8 :: vs.flatMap String.utf8EncodeChar := by
  rw [Buffer.bytes_eq, hs.text_eq, List.flatMap_append, List.flatMap_cons,
    String.utf8EncodeChar_eq_singleton hch]
  rfl

theorem Splits.getElem?_bytes {ch : Char} (hs : b.Splits q us (ch :: vs))
    (hch : ch.utf8Size = 1) : b.bytes[Text.byteLength us]? = some ch.toUInt8 := by
  rw [hs.bytes_eq hch, ← length_flatMap_utf8EncodeChar, List.getElem?_append_right (Nat.le_refl _),
    Nat.sub_self]
  rfl

/-- A text with the bytes of another one up to a place has its characters up to there. -/
theorem Splits.of_take_bytes {ch : Char} (hs : b.Splits q us (ch :: vs)) (hch : ch.utf8Size = 1)
    (h : b'.bytes.take (Text.byteLength us + 1) = b.bytes.take (Text.byteLength us + 1)) :
    ∃ vs', b'.Splits q us (ch :: vs') := by
  have hsame : b.bytes.take (Text.byteLength us + 1) =
      (us ++ [ch]).flatMap String.utf8EncodeChar := by
    rw [Buffer.bytes_eq, hs.text_eq, List.append_cons, List.flatMap_append]
    refine List.take_left' ?_
    rw [length_flatMap_utf8EncodeChar, Text.byteLength_append, Text.byteLength_cons, hch]
    rfl
  have hencode : (us ++ [ch]).utf8Encode ++
      (b'.bytes.drop (Text.byteLength us + 1)).toByteArray = b'.text.utf8Encode := by
    rw [List.utf8Encode, ← List.toByteArray_append, ← hsame, ← h, List.take_append_drop,
      Buffer.bytes_eq]
    rfl
  obtain ⟨vs', hvs'⟩ := List.isPrefix_of_utf8Encode_append_eq_utf8Encode _ hencode
  exact ⟨vs', by rw [← hvs', List.append_assoc]; rfl, hs.place_eq⟩

end Buffer

theorem Range.start_le_stop_between (p q : Position) :
    (Range.between p q).start ≤ (Range.between p q).stop := by
  unfold Range.between
  split
  · next h => exact h
  · next h =>
    show q ≤ p
    rw [Position.le_iff] at h ⊢
    omega

namespace Occurrence

variable {b b' : Buffer} {o : Occurrence} {q : Position} {us vs vs' : List Char}

theorem isGenuine_eq_of_splits (hs : b.Splits q us vs) (hs' : b'.Splits q us vs')
    (hle : o.range.start ≤ q) : o.isGenuine b' = o.isGenuine b := by
  obtain ⟨l, ls, hl⟩ := Text.exists_lines_eq_cons vs
  obtain ⟨l', ls', hl'⟩ := Text.exists_lines_eq_cons vs'
  rcases hle with hlt | ⟨heq, hcolumn⟩
  · obtain ⟨above, hrow, hlines⟩ := Buffer.exists_lines_of_place hs.place_eq
    have hline : b'.line? o.range.start.row = b.line? o.range.start.row := by
      rw [Buffer.line?, Buffer.line?, hlines b _ _ _ hs hl, hlines b' _ _ _ hs' hl',
        List.getElem?_append_left (by omega), List.getElem?_append_left (by omega)]
    rw [isGenuine, isGenuine, hline]
  · have hlast : o.range.start.column ≤ (Text.octets (Text.lastLine us)).length := by
      rwa [Text.length_octets, ← hs.column_eq]
    rw [isGenuine, isGenuine, heq, hs.line? hl, hs'.line? hl', Option.any_some, Option.any_some,
      Text.octets_append, Text.octets_append, Text.isGenuine_append hlast,
      Text.isGenuine_append hlast]

/-- The argument is found from the text up to its closing brace. -/
theorem exists_closer_of_argument? {r : Range} (hrange : o.range.start ≤ o.range.stop)
    (h : o.argument? b = some r) :
    ∃ us vs, b.Splits r.stop us ('}' :: vs) ∧
      ∀ b' vs', b'.Splits r.stop us ('}' :: vs') → o.argument? b' = some r := by
  unfold argument? at h
  split at h
  · next hgenuine =>
    obtain ⟨c, hc, h⟩ := Option.bind_eq_some_iff.1 h
    obtain ⟨ws, close, hreads⟩ := Cursor.exists_readsUpTo_argument? h
    obtain ⟨hplace, hon⟩ := Buffer.cursorAt?_eq_some_iff.1 hc
    have hclose := hreads.on b hon
    obtain ⟨us, vs, hs⟩ := hclose.exists_splits hreads.octet_eq
    have hle : o.range.start ≤ close.position := by
      have hlt : o.delimiter < close.position := hplace ▸ hreads.lt
      rw [Position.lt_iff] at hlt
      rw [Position.le_iff] at hrange ⊢
      simp only [delimiter] at hlt
      omega
    rw [hreads.stop_eq]
    refine ⟨us, vs, hs, fun b' vs' hs' => ?_⟩
    obtain ⟨c', s, hc', hstream, hhead⟩ := Cursor.exists_cursorAt?_of_splits hc hclose
      hreads.octet_eq rfl hreads.stream_eq hs hs'
    rw [argument?, isGenuine_eq_of_splits hs hs' hle, if_pos hgenuine, hc', Option.bind_some]
    exact hreads.transfer c' s hstream hhead
  · cases h

theorem excerpt?_eq_of_argument? {r : Range} (h : o.argument? b = some r)
    (hs : b.Splits r.stop us vs) (hs' : b'.Splits r.stop us vs') :
    b'.excerpt? r = b.excerpt? r := by
  obtain ⟨us₀, ws, vs₀, hstart, hstop⟩ := exists_splits_of_argument? h
  obtain ⟨rfl, rfl⟩ := hstop.unique hs
  have hstart' : b'.Splits r.start us₀ (ws ++ vs') :=
    ⟨by rw [hs'.text_eq, List.append_assoc], hstart.place_eq⟩
  exact (hstart'.excerpt? hs').trans (hstart.excerpt? hstop).symm

/-- The offset of the brace that closes the argument. -/
def closing? (b : Buffer) (o : Occurrence) : Option Nat :=
  (o.argument? b).bind fun r => b.offset? r.stop

/-- What is read at a command is read from the text up to the closing brace of its argument:
in every text with the same bytes up to and with that brace it is the same. -/
theorem entry_eq_of_bytes_upTo_closing {b : Buffer} {o : Occurrence} {x : Entry}
    (hrange : ∃ p q, o.range = .between p q) (h : o.entry (.ofBuffer b) = .ok x)
    (hx : x ≠ .rejected) :
    ∃ e, o.closing? b = some e ∧ b.bytes[e]? = some '}'.toUInt8 ∧
      ∀ b' : Buffer, b'.id = b.id → b'.bytes.take (e + 1) = b.bytes.take (e + 1) →
        o.entry (.ofBuffer b') = .ok x := by
  rw [entry_ofBuffer, Except.ok.injEq] at h
  subst h
  obtain ⟨p, q, hrange⟩ := hrange
  cases hr : o.argument? b with
  | none =>
    rw [reading, hr] at hx
    exact absurd rfl hx
  | some r =>
    have hle : o.range.start ≤ o.range.stop := by
      rw [hrange]
      exact Range.start_le_stop_between p q
    obtain ⟨us, vs, hs, htransfer⟩ := exists_closer_of_argument? hle hr
    refine ⟨Text.byteLength us, ?_, hs.getElem?_bytes (by decide), fun b' hid hbytes => ?_⟩
    · rw [closing?, hr, Option.bind_some, hs.offset?]
    · obtain ⟨vs', hs'⟩ := hs.of_take_bytes (by decide) hbytes
      rw [entry_ofBuffer, reading, reading, hr, htransfer b' vs' hs']
      simp only [excerpt?_eq_of_argument? hr hs hs', hid]

/-- A section with a short title, and a comment and a group in the long one. -/
def tailed (tail : String) : Buffer :=
  .ofString ⟨"main.tex"⟩ ("é\n\\section[s]\x7bA % \x7d\n\n\x7bb\x7d ü\x7d" ++ tail)

theorem entry_tailed :
    entry (.ofBuffer (tailed "\n\\part\x7b")) ⟨.section, .between ⟨1, 0⟩ ⟨1, 9⟩⟩ =
        .ok (.heading ⟨"A \x7bb\x7d ü", 3, ⟨1, 0⟩, ⟨"main.tex"⟩⟩) ∧
      closing? (tailed "\n\\part\x7b") ⟨.section, .between ⟨1, 0⟩ ⟨1, 9⟩⟩ = some 28 ∧
      entry (.ofBuffer (tailed "")) ⟨.section, .between ⟨1, 0⟩ ⟨1, 9⟩⟩ =
        .ok (.heading ⟨"A \x7bb\x7d ü", 3, ⟨1, 0⟩, ⟨"main.tex"⟩⟩) := by
  have hreading : reading (tailed "\n\\part\x7b") ⟨.section, .between ⟨1, 0⟩ ⟨1, 9⟩⟩ =
      .heading ⟨"A \x7bb\x7d ü", 3, ⟨1, 0⟩, ⟨"main.tex"⟩⟩ := by decide +kernel
  have hclosing : closing? (tailed "\n\\part\x7b") ⟨.section, .between ⟨1, 0⟩ ⟨1, 9⟩⟩ =
      some 28 := by decide +kernel
  have hbytes : (tailed "").bytes.take 29 = (tailed "\n\\part\x7b").bytes.take 29 := by
    decide +kernel
  have hid : ∀ tail, (tailed tail).id = ⟨"main.tex"⟩ := fun _ => rfl
  have hentry := (entry_ofBuffer (tailed "\n\\part\x7b") _).trans (congrArg Except.ok hreading)
  obtain ⟨e, he, -, hall⟩ :=
    entry_eq_of_bytes_upTo_closing ⟨⟨1, 0⟩, ⟨1, 9⟩, rfl⟩ hentry (by simp)
  obtain rfl : 28 = e := Option.some.inj (hclosing.symm.trans he)
  exact ⟨hentry, hclosing, hall (tailed "") ((hid _).trans (hid _).symm) hbytes⟩

end Occurrence
end Sectioning
