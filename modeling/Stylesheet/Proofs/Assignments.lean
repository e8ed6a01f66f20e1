import Stylesheet.Proofs.Cuts
import Stylesheet.Statement.Clause

/-! Variables as they are written.

A statement declares a variable if it is a `$` with a name, a colon, the text of a value and any
number of flags, with any blanks around these parts (`Assignment.Spelling`). The flags are taken off
the end of the text one by one, and the text that is left is the value, so a value neither ends in a
blank nor in a flag of its own. What is read off a statement is what was spelled in it, and nothing
but such a statement is read. -/

namespace Stylesheet

namespace Text

/-! ### Names and bindings -/

/-- A name as a whole. -/
structure IsIdentifier (name : Text) : Prop where
  starts : IsName name
  chars : ∀ c ∈ name, isNameChar c = true

theorem IsIdentifier.name? {name rest : Text} (h : IsIdentifier name)
    (hrest : ∀ c ∈ rest.head?, isNameChar c = false) :
    Text.name? (name ++ rest) = some (name, rest) := by
  obtain ⟨⟨c, hhead, hstart⟩, hchars⟩ := h
  obtain ⟨more, rfl⟩ := List.head?_eq_some_iff.1 hhead
  have hmore : ∀ d ∈ more, isNameChar d = true := fun d hd => hchars d (List.mem_cons_of_mem c hd)
  rw [List.cons_append, Text.name?, if_pos hstart, takeWhile_run hmore hrest,
    dropWhile_run hmore hrest]

theorem isIdentifier_of_name? {t name rest : Text} (h : name? t = some (name, rest)) :
    IsIdentifier name ∧ t = name ++ rest := by
  obtain ⟨hname, htake⟩ := name?_eq_some_iff.1 ⟨rest, h⟩
  refine ⟨⟨hname, fun c hc => ?_⟩, ?_⟩
  · rw [← htake] at hc
    exact List.mem_takeWhile_imp hc
  · cases t with
    | nil => cases h
    | cons c t =>
        rw [name?] at h
        split at h
        · cases h
          rw [List.cons_append, List.takeWhile_append_dropWhile]
        · cases h

/-- A binding with blanks around its colon. -/
theorem binding?_append {name gap value : Text} (hname : IsIdentifier name) (hgap : Blanks gap)
    (hline : '\n' ∉ trimStart value) :
    binding? ('$' :: (name ++ (gap ++ ':' :: value))) = some (name, trimStart value) := by
  have hstop : ∀ c ∈ (gap ++ ':' :: value).head?, isNameChar c = false := by
    cases gap with
    | nil =>
        rintro c ⟨⟩
        rfl
    | cons d gap =>
        rintro c ⟨⟩
        exact isNameChar_of_isBlank (hgap d List.mem_cons_self)
  have hcolon : after? [':'] (trimStart (gap ++ ':' :: value)) = some value := by
    rw [trimStart_blanks_append hgap, trimStart_cons rfl]
    exact after?_append [':'] value
  have hdollar : after? ['$'] ('$' :: (name ++ (gap ++ ':' :: value))) =
      some (name ++ (gap ++ ':' :: value)) := after?_append ['$'] _
  simp [binding?, hdollar, hname.name? hstop, hcolon, hline]

theorem exists_of_binding? {t name value : Text} (h : binding? t = some (name, value)) :
    IsIdentifier name ∧ '\n' ∉ value ∧ (∀ c ∈ value.head?, isBlank c = false) ∧
      ∃ before behind, Blanks before ∧ Blanks behind ∧
        t = '$' :: (name ++ (before ++ ':' :: (behind ++ value))) := by
  obtain ⟨rest, hdollar, h⟩ := Option.bind_eq_some_iff.1 h
  obtain ⟨⟨name', rest'⟩, hread, h⟩ := Option.bind_eq_some_iff.1 h
  obtain ⟨value', hcolon, h⟩ := Option.bind_eq_some_iff.1 h
  obtain ⟨hline, h⟩ := Option.ite_none_left_eq_some.1 h
  cases h
  obtain rfl := after?_eq_some_iff.1 hdollar
  obtain ⟨hname, rfl⟩ := isIdentifier_of_name? hread
  have hbefore : rest' = rest'.takeWhile isBlank ++ trimStart rest' :=
    List.takeWhile_append_dropWhile.symm
  have hbehind : value' = value'.takeWhile isBlank ++ trimStart value' :=
    List.takeWhile_append_dropWhile.symm
  refine ⟨hname, by simpa using hline, fun c hc => head?_dropWhile hc, rest'.takeWhile isBlank,
    value'.takeWhile isBlank, fun c hc => List.mem_takeWhile_imp hc,
    fun c hc => List.mem_takeWhile_imp hc, ?_⟩
  rw [← hbehind, ← List.singleton_append (x := ':'), ← after?_eq_some_iff.1 hcolon, ← hbefore]
  rfl

end Text

/-! ### Flags -/

/-- A flag behind its exclamation mark. -/
def Flag.mark (flag : Flag) : Text :=
  '!' :: flag.word

/-- A flag behind a value, with the blanks around it. -/
structure SpacedFlag where
  before : Text
  flag : Flag
  behind : Text
  blank_before : before.Blanks
  blank_behind : behind.Blanks

def SpacedFlag.text (f : SpacedFlag) : Text :=
  f.before ++ (f.flag.mark ++ f.behind)

/-- A value that does not end in a flag. -/
def Text.Unflagged (value : Text) : Prop :=
  ∀ flag : Flag, ¬flag.mark <:+ value

namespace Assignment

theorem not_default_suffix_global (t : Text) : ¬Flag.default.mark <:+ t ++ Flag.global.mark := by
  rintro ⟨front, hfront⟩
  have hends : Flag.default.mark.getLast? = some 't' ∧ Flag.global.mark.getLast? = some 'l' := by
    decide
  have hlast := congrArg List.getLast? hfront
  rw [List.getLast?_append, List.getLast?_append, hends.1, hends.2] at hlast
  cases hlast

theorem lastFlag?_append (t : Text) (flag : Flag) :
    lastFlag? (t ++ flag.mark) = some (t, flag) := by
  have hdefault : "!default".toList = Flag.default.mark := by decide
  have hglobal : "!global".toList = Flag.global.mark := by decide
  unfold lastFlag?
  rw [hdefault, hglobal]
  cases flag with
  | default => rw [Text.before?_append]
  | global =>
      rw [Text.before?_eq_none_iff.2 (not_default_suffix_global t), Text.before?_append]
      rfl

theorem lastFlag?_eq_some_iff {t rest : Text} {flag : Flag} :
    lastFlag? t = some (rest, flag) ↔ t = rest ++ flag.mark := by
  constructor
  · intro h
    unfold lastFlag? at h
    split at h
    · next hdefault =>
      cases h
      exact Text.before?_eq_some_iff.1 hdefault
    · obtain ⟨rest', hglobal, h⟩ := Option.map_eq_some_iff.1 h
      cases h
      exact Text.before?_eq_some_iff.1 hglobal
  · rintro rfl
    exact lastFlag?_append rest flag

theorem lastFlag?_eq_none_iff {t : Text} : lastFlag? t = none ↔ t.Unflagged := by
  rw [Option.eq_none_iff_forall_not_mem]
  constructor
  · rintro h flag ⟨rest, rfl⟩
    exact h (rest, flag) (lastFlag?_append rest flag)
  · rintro h ⟨rest, flag⟩ hlast
    exact h flag ⟨rest, (lastFlag?_eq_some_iff.1 hlast).symm⟩

theorem splitFlags_of_unflagged {t : Text} (h : t.Unflagged) (later : List Flag) :
    splitFlags t later = (t, later) := by
  rw [splitFlags, lastFlag?_eq_none_iff.2 h]

theorem length_trimEnd_lt (t : Text) (flag : Flag) :
    t.trimEnd.length < (t ++ flag.mark).length := by
  obtain ⟨blanks, hsplit, _⟩ := Text.trimEnd_append t
  have hlength := congrArg List.length hsplit
  rw [List.length_append] at hlength
  rw [List.length_append, Flag.mark, List.length_cons]
  omega

/-- One flag is taken off the end of a text, with the blanks before it. -/
theorem splitFlags_append_mark (t : Text) (flag : Flag) (later : List Flag) :
    splitFlags (t ++ flag.mark) later = splitFlags t.trimEnd (flag :: later) := by
  rw [splitFlags, lastFlag?_append]
  exact if_pos (length_trimEnd_lt t flag)

theorem trim_append_spacedFlag (t : Text) (f : SpacedFlag) :
    (t ++ f.text).trim = Text.trimStart (t ++ f.before) ++ f.flag.mark := by
  have hmark : ∃ word last, f.flag.mark = '!' :: word ++ [last] ∧ isBlank last = false := by
    cases f.flag with
    | default => exact ⟨"defaul".toList, 't', by decide, rfl⟩
    | global => exact ⟨"globa".toList, 'l', by decide, rfl⟩
  obtain ⟨word, last, hmark, hlast⟩ := hmark
  have hend : Text.trimEnd (t ++ f.before ++ f.flag.mark) = t ++ f.before ++ f.flag.mark := by
    rw [hmark, ← List.append_assoc]
    exact Text.trimEnd_append_cons hlast _ []
  have htext : t ++ f.text = t ++ f.before ++ f.flag.mark ++ f.behind := by
    simp [SpacedFlag.text]
  rw [htext, Text.trim_append_blanks f.blank_behind, ← Text.trimStart_trimEnd, hend, hmark,
    List.cons_append, Text.trimStart_append_cons rfl]

/-- The flags behind a value are taken off in their order, and the value is left. -/
theorem splitFlags_append {value : Text} (htrim : value.trim = value) (hvalue : value.Unflagged)
    (flags : List SpacedFlag) (later : List Flag) :
    splitFlags (value ++ flags.flatMap SpacedFlag.text).trim later =
      (value, flags.map SpacedFlag.flag ++ later) := by
  -- The last flag is the first to be taken off, so the list is followed from its end.
  induction flags using List.reverseRecOn generalizing later with
  | nil =>
      rw [List.flatMap_nil, List.append_nil, htrim]
      exact splitFlags_of_unflagged hvalue later
  | append_singleton flags f ih =>
      have hrest : Text.trimEnd (Text.trimStart
          (value ++ flags.flatMap SpacedFlag.text ++ f.before)) =
          (value ++ flags.flatMap SpacedFlag.text).trim :=
        Text.trim_append_blanks f.blank_before _
      rw [List.flatMap_append, List.flatMap_singleton, ← List.append_assoc, trim_append_spacedFlag,
        splitFlags_append_mark, hrest, ih, List.map_append, List.append_assoc]
      rfl

/-- What is taken off a text are flags with blanks before them. -/
theorem exists_flags_of_splitFlags {t : Text} (ht : t.trimEnd = t) (later : List Flag) :
    ∃ flags : List SpacedFlag, t = (splitFlags t later).1 ++ flags.flatMap SpacedFlag.text ∧
      (splitFlags t later).2 = flags.map SpacedFlag.flag ++ later ∧
      (splitFlags t later).1.trimEnd = (splitFlags t later).1 ∧
      (splitFlags t later).1.Unflagged := by
  induction hlength : t.length using Nat.strong_induction_on generalizing t later with
  | _ n ih =>
    subst hlength
    cases hlast : lastFlag? t with
    | none =>
        have hvalue := lastFlag?_eq_none_iff.1 hlast
        rw [splitFlags_of_unflagged hvalue]
        exact ⟨[], by simp, by simp, ht, hvalue⟩
    | some found =>
        obtain ⟨rest, flag⟩ := found
        obtain rfl := lastFlag?_eq_some_iff.1 hlast
        obtain ⟨blanks, hsplit, hblanks⟩ := Text.trimEnd_append rest
        obtain ⟨flags, htext, hflags, hend, hvalue⟩ :=
          ih _ (length_trimEnd_lt rest flag) (Text.trimEnd_trimEnd rest) (flag :: later) rfl
        rw [splitFlags_append_mark]
        refine ⟨flags ++ [⟨blanks, flag, [], hblanks, by decide⟩], ?_, ?_, hend, hvalue⟩
        · rw [List.flatMap_append, List.flatMap_singleton, ← List.append_assoc, ← htext]
          conv_lhs => rw [hsplit]
          simp [SpacedFlag.text]
        · rw [hflags]
          simp

/-! ### Statements -/

/-- A statement that declares a variable, as it is spelled. -/
structure Spelling where
  lead : Text
  name : Text
  beforeColon : Text
  behindColon : Text
  value : Text
  flags : List SpacedFlag
  trail : Text
  isIdentifier : name.IsIdentifier
  trimmed : value.trim = value
  unflagged : value.Unflagged
  /-- The value and its flags stand on one line. -/
  oneLine : '\n' ∉ value ++ flags.flatMap SpacedFlag.text
  blank_lead : lead.Blanks
  blank_beforeColon : beforeColon.Blanks
  blank_behindColon : behindColon.Blanks
  blank_trail : trail.Blanks

namespace Spelling

/-- The value of a statement with its flags behind it. -/
def flaggedValue (s : Spelling) : Text :=
  s.value ++ s.flags.flatMap SpacedFlag.text

/-- The statement. -/
def text (s : Spelling) : Text :=
  s.lead ++ '$' :: (s.name ++
    (s.beforeColon ++ ':' :: (s.behindColon ++ s.flaggedValue ++ s.trail)))

/-- The variable that the statement declares. -/
def assignment (s : Spelling) : Assignment :=
  ⟨s.name, s.value, s.flags.map SpacedFlag.flag⟩

theorem trim_text (s : Spelling) :
    s.text.trim =
      '$' :: (s.name ++
        (s.beforeColon ++ ':' :: Text.trimEnd (s.behindColon ++ s.flaggedValue))) := by
  have hfront (rest : Text) : '$' :: (s.name ++ (s.beforeColon ++ ':' :: rest)) =
      '$' :: (s.name ++ s.beforeColon) ++ ':' :: rest := by simp
  rw [text, Text.trim_blanks_append s.blank_lead, Text.trim, Text.trimStart_cons rfl, hfront,
    Text.trimEnd_append_cons rfl, Text.trimEnd_append_blanks s.blank_trail, hfront]

theorem binding?_text (s : Spelling) :
    s.text.trim.binding? = some (s.name, s.flaggedValue.trim) := by
  have hvalue : Text.trimStart (Text.trimEnd (s.behindColon ++ s.flaggedValue)) =
      s.flaggedValue.trim := by
    rw [Text.trimStart_trimEnd, Text.trim_blanks_append s.blank_behindColon]
  have hline : '\n' ∉ s.flaggedValue.trim := fun hmem =>
    s.oneLine ((Text.trim_infix s.flaggedValue).mem hmem)
  rw [trim_text, Text.binding?_append s.isIdentifier s.blank_beforeColon (hvalue ▸ hline), hvalue]

/-- A statement declares the variable that is spelled in it. -/
theorem ofStatement?_text (s : Spelling) : ofStatement? s.text = some s.assignment := by
  have hflags := splitFlags_append s.trimmed s.unflagged s.flags []
  rw [← flaggedValue, List.append_nil] at hflags
  rw [ofStatement?, binding?_text, Option.map_some]
  dsimp only
  rw [Text.trim_trim, hflags, assignment]

end Spelling

/-- A statement that declares a variable is the spelling of one. -/
theorem exists_spelling {t : Text} {a : Assignment} (h : ofStatement? t = some a) :
    ∃ s : Spelling, s.text = t ∧ s.assignment = a := by
  obtain ⟨⟨name, written⟩, hbinding, rfl⟩ := Option.map_eq_some_iff.1 h
  obtain ⟨hname, hline, hhead, before, behind, hbefore, hbehind, htrim⟩ :=
    Text.exists_of_binding? hbinding
  obtain ⟨lead, trail, ht, hlead, htrail⟩ := Text.exists_trim t
  obtain ⟨blanks, hblanks, hblank⟩ := Text.trimEnd_append written
  have hwritten : written.trim = written.trimEnd := by rw [Text.trim, Text.trimStart_of_head? hhead]
  obtain ⟨flags, hsplit, hflags, hend, hvalue⟩ :=
    exists_flags_of_splitFlags (Text.trimEnd_trimEnd written) []
  dsimp only
  rw [hwritten]
  generalize splitFlags written.trimEnd [] = found at *
  have hfront : found.1 <+: written := by
    refine ⟨flags.flatMap SpacedFlag.text ++ blanks, ?_⟩
    rw [← List.append_assoc, ← hsplit]
    exact hblanks.symm
  have hstart : found.1.trimStart = found.1 := by
    refine Text.trimStart_of_head? fun c hc => hhead c ?_
    obtain ⟨rest, hrest⟩ := hfront
    rw [← hrest, List.head?_append, Option.mem_def.1 hc]
    rfl
  have htext : lead ++ '$' :: (name ++ (before ++ ':' ::
      (behind ++ (found.1 ++ flags.flatMap SpacedFlag.text) ++ (blanks ++ trail)))) = t := by
    rw [← hsplit]
    conv_rhs => rw [ht, htrim, hblanks]
    simp
  refine ⟨⟨lead, name, before, behind, found.1, flags, blanks ++ trail, hname, ?_, hvalue, ?_,
    hlead, hbefore, hbehind, ?_⟩, htext, ?_⟩
  · rw [Text.trim, hstart, hend]
  · rw [← hsplit]
    exact fun hmem => hline (hblanks ▸ List.mem_append_left _ hmem)
  · exact fun c hc => (List.mem_append.1 hc).elim (hblank c) (htrail c)
  · rw [Spelling.assignment, hflags, List.append_nil]

/-- A statement declares a variable exactly if the variable is spelled in it: the name, the text of
the value and the flags in their order are read off as they stand there. The value that is read off
neither ends in a blank nor in a flag. -/
theorem ofStatement?_iff_spelling (t : Text) (a : Assignment) :
    (ofStatement? t = some a ↔ ∃ s : Spelling, s.text = t ∧ s.assignment = a) ∧
      (ofStatement? t = some a → a.value.trimEnd = a.value ∧ a.value.Unflagged) := by
  have hiff : ofStatement? t = some a ↔ ∃ s : Spelling, s.text = t ∧ s.assignment = a := by
    refine ⟨exists_spelling, ?_⟩
    rintro ⟨s, rfl, rfl⟩
    exact s.ofStatement?_text
  refine ⟨hiff, fun h => ?_⟩
  obtain ⟨s, _, rfl⟩ := hiff.1 h
  refine ⟨?_, s.unflagged⟩
  have htrim : s.value.trim.trimEnd = s.value.trim := Text.trimEnd_trimEnd _
  rwa [s.trimmed] at htrim

/-- A value with a flag inside it, flags right behind it and apart, and blanks on one side of the
colon only. -/
def crowded : Spelling where
  lead := []
  name := "a-b".toList
  beforeColon := [' ']
  behindColon := []
  value := "x!default y".toList
  flags := [⟨[], .default, [' '], by decide, by decide⟩, ⟨[' '], .global, [], by decide, by decide⟩]
  trail := ['\n']
  isIdentifier := ⟨⟨'a', rfl, rfl⟩, List.all_eq_true.1 rfl⟩
  trimmed := by decide
  unflagged := fun flag => by cases flag <;> decide
  oneLine := by decide
  blank_lead := by decide
  blank_beforeColon := by decide
  blank_behindColon := by decide
  blank_trail := by decide

theorem ofStatement?_iff_spelling_crowded :
    ofStatement? "$a-b :x!default y!default  !global\n".toList =
      some ⟨"a-b".toList, "x!default y".toList, [.default, .global]⟩ :=
  (ofStatement?_iff_spelling _ _).1.2 ⟨crowded, by decide, rfl⟩

end Assignment

end Stylesheet
