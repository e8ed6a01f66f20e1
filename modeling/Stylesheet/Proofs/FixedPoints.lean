import Stylesheet.Proofs.RawText

/-! Texts that scanning leaves as they are.

The text of a segment alone is read as that text (`Cursor.next_text`), and the body of a block is
captured again as that body: each of its segments is read from what was written down of it, whether
a space follows, a mark or the brace that closes the block. -/

namespace Stylesheet

/-- Before a closing brace the text of a segment is read again. -/
theorem Cursor.next_text_close {c : Cursor} {s : Segment} (h : c.next.outcome = .ok s)
    (p : Position) (rest : Text) :
    ∃ s' q, next ⟨p, s.text ++ '}' :: rest⟩ = ⟨.ok s', ⟨q, rest⟩⟩ ∧ s'.text = s.text ∧
      s'.terminator = some .closeBrace := by
  obtain ⟨clean, htidy, htext, _⟩ := next_tidy h
  have hends : clean.Ends (some '}') := by
    intro c _
    simp [Lexeme.Stops]
  have hmark := read_mark_cons (d := clean.restart p) (m := .closeBrace) (fun hm => by cases hm)
    (p.after clean.reversed.reverse) rest
  rw [htext, next, htidy.rereads p ('}' :: rest) hends]
  refine ⟨_, _, hmark, ?_, rfl⟩
  rw [htidy.text_finish (d := clean.restart p) (.inl rfl)]

namespace Capture

/-- What stands between the parts of a block and one more part. -/
def lead (parts : List Text) : Text :=
  if parts = [] then [] else [' ']

theorem next_lead (parts : List Text) (p : Position) (t : Text) :
    Cursor.next ⟨p, lead parts ++ t⟩ = Cursor.next ⟨p.after (lead parts), t⟩ := by
  unfold lead
  split
  · rfl
  · exact Cursor.next_space p t

theorem join_eq_of_spread {parts more : List Text} {part : Text}
    (h : spread more = spread parts ++ ' ' :: part) :
    Text.join [' '] more = Text.join [' '] parts ++ lead parts ++ part := by
  have hmore : more ≠ [] := by
    rintro rfl
    simp at h
  rw [spread_eq_join hmore] at h
  by_cases hnil : parts = []
  · subst hnil
    simpa [lead, Text.join] using h
  · rw [spread_eq_join hnil] at h
    simpa [lead, hnil] using h

variable {c : Capture} {s : Segment} {m : Mark}

/-- A segment that goes into the block is written down behind its parts. -/
theorem join_step {longer : Capture} (hmark : s.terminator = some m)
    (hstep : c.step s.text m = .more longer) (hparts : ∀ part ∈ c.parts, part ≠ []) :
    Text.join [' '] longer.parts = Text.join [' '] c.parts ++ lead c.parts ++ s.written :=
  join_eq_of_spread (spread_step hmark hstep hparts).2

/-- The text of the segment that closes the block is its last part, if there is one. -/
theorem join_done {body : Text} (hstep : c.step s.text m = .done body) :
    m = .closeBrace ∧
      body = Text.join [' '] c.parts ++ if s.text = [] then [] else lead c.parts ++ s.text := by
  cases m with
  | semicolon => cases hstep
  | openBrace => cases hstep
  | closeBrace =>
      cases hdepth : c.depth with
      | succ outer =>
          simp only [step, hdepth] at hstep
          cases hstep
      | zero =>
          simp only [step, hdepth] at hstep
          cases hstep
          refine ⟨rfl, ?_⟩
          by_cases hnil : s.text = []
          · simp [hnil]
          · have hspread : spread (c.parts ++ [s.text]) = spread c.parts ++ ' ' :: s.text := by simp
            simpa [hnil] using join_eq_of_spread hspread

/-- What is left of a body behind the parts of a capture is captured again. -/
theorem Grows.reread {segs : List Segment} {body : Text} (h : c.Grows segs body)
    (hparts : ∀ part ∈ c.parts, part ≠ [])
    (hread : ∀ s ∈ segs, ∃ c' : Cursor, c'.next.outcome = .ok s) :
    ∃ t, body ++ ['}'] = Text.join [' '] c.parts ++ t ∧
      ∀ opened p, (Cursor.captureFrom opened c ⟨p, t⟩).outcome = .ok body := by
  induction h with
  | @done c s m body hmark hstep =>
      obtain ⟨rfl, hbody⟩ := join_done hstep
      obtain ⟨c', hc'⟩ := hread s List.mem_cons_self
      refine ⟨(if s.text = [] then [] else lead c.parts ++ s.text) ++ ['}'], ?_, fun opened p => ?_⟩
      · rw [hbody, List.append_assoc]
      · have hagain : ∃ s' q, Cursor.next
            ⟨p, (if s.text = [] then [] else lead c.parts ++ s.text) ++ ['}']⟩ =
              ⟨.ok s', ⟨q, []⟩⟩ ∧ s'.text = s.text ∧ s'.terminator = some .closeBrace := by
          by_cases hnil : s.text = []
          · simpa [hnil] using Cursor.next_text_close hc' p []
          · rw [if_neg hnil, List.append_assoc, next_lead]
            exact Cursor.next_text_close hc' _ []
        obtain ⟨s', q, hnext, htext, hmark'⟩ := hagain
        rw [← htext] at hstep
        rw [(Cursor.captureFrom_of_mark (congrArg Scan.outcome hnext) hmark' opened).1 body hstep]
  | @more c longer s m segs body hmark hstep _ ih =>
      obtain ⟨c', hc'⟩ := hread s List.mem_cons_self
      obtain ⟨t, ht, hcapture⟩ := ih (spread_step hmark hstep hparts).1 fun s' hs' =>
        hread s' (List.mem_cons_of_mem s hs')
      refine ⟨lead c.parts ++ (s.written ++ t), ?_, fun opened p => ?_⟩
      · rw [ht, join_step hmark hstep hparts]
        simp
      · obtain ⟨s', q, hnext, ⟨htext, hmark'⟩, _⟩ :=
          Cursor.next_written hc' hmark (p.after (lead c.parts)) t
        rw [← next_lead] at hnext
        rw [htext] at hstep
        rw [(Cursor.captureFrom_of_mark (congrArg Scan.outcome hnext) (hmark'.symm.trans hmark)
          opened).2 longer hstep, hnext]
        exact hcapture opened q

end Capture

/-- What scanning makes of a source it leaves as it is. The text of a segment is read from its start
as one segment up to the end, and the body of a block, with a brace behind it, is captured as the same
body; a byte order mark at the front would be dropped. -/
theorem Cursor.scan_of_normal_text (c : Cursor) :
    (∀ s, c.next.outcome = .ok s → s.text.head? ≠ some '\ufeff' →
      (start s.text).next.outcome = .ok ⟨s.text, ⟨1, 0⟩, none, Position.start.after s.text⟩) ∧
    ∀ opened body, (c.capture opened).outcome = .ok body → body.head? ≠ some '\ufeff' →
      ∀ opened', ((start (body ++ ['}'])).capture opened').outcome = .ok body := by
  refine ⟨fun s hs hmark => ?_, fun opened body hbody hmark opened' => ?_⟩
  · rw [start_of_head? hmark]
    exact next_text hs .start
  · obtain ⟨inner, rest, hsegs, hgrows⟩ := Capture.grows_of_body? (captureFrom_ok_iff.1 hbody)
    have hread : ∀ s ∈ inner, ∃ c' : Cursor, c'.next.outcome = .ok s := fun s hs =>
      exists_next_of_mem (c := c) (by rw [hsegs]; exact List.mem_append_left rest hs)
    obtain ⟨t, ht, hcapture⟩ := hgrows.reread (List.forall_mem_nil _) hread
    have hstart : (body ++ ['}']).head? ≠ some '\ufeff' := by
      cases body with
      | nil => decide
      | cons first body => exact hmark
    rw [start_of_head? hstart, ht]
    exact hcapture opened' .start

/-- A block with a double slash and semicolons in parentheses that a brace leaves open, with empty
statements and with a brace in a string. -/
def Cursor.ragged : Text :=
  "p  /*;*/( //\t;\x7b ;;\x7d\"\x7d  \" q \x7d".toList

theorem Cursor.scan_of_normal_text_ragged :
    (start ragged).next.outcome =
        .ok ⟨"p ( // ;".toList, ⟨1, 0⟩, some .openBrace, ⟨1, 14⟩⟩ ∧
      (start "p ( // ;".toList).next.outcome =
        .ok ⟨"p ( // ;".toList, ⟨1, 0⟩, none, Position.start.after "p ( // ;".toList⟩ ∧
      ((start ragged).capture .start).outcome =
        .ok "p ( // ; \x7b ; ; \x7d \"\x7d  \" q".toList ∧
      ((start ("p ( // ; \x7b ; ; \x7d \"\x7d  \" q".toList ++ ['}'])).capture .start).outcome =
        .ok "p ( // ; \x7b ; ; \x7d \"\x7d  \" q".toList := by
  have hsegment : (start ragged).next.outcome =
      .ok ⟨"p ( // ;".toList, ⟨1, 0⟩, some .openBrace, ⟨1, 14⟩⟩ := by
    decide +kernel
  have hbody : ((start ragged).capture .start).outcome =
      .ok "p ( // ; \x7b ; ; \x7d \"\x7d  \" q".toList := by
    decide +kernel
  obtain ⟨htext, hblock⟩ := scan_of_normal_text (start ragged)
  exact ⟨hsegment, htext _ hsegment (by decide), hbody, hblock .start _ hbody (by decide) .start⟩

end Stylesheet
