import Stylesheet.Extraction
import Stylesheet.Proofs.Fronts

/-! Comments are blanks.

A comment may be replaced by as many spaces, its line feeds kept, and nothing that is read of the
source changes. What stands before the comment is a common front of both sources, since a lexeme
goes on into a comment no more than into a space; and with any draft the comment and the spaces lead
to the same draft at the same position. Two cursors before such a place stay alike under every call
(`Alike.next`, `Alike.capture`). -/

namespace Stylesheet

/-- The text with a space in place of every character that is no line feed. -/
def Text.blankOut (t : Text) : Text :=
  t.map fun c => if c = '\n' then c else ' '

theorem Position.after_blankOut (p : Position) (t : Text) : p.after t.blankOut = p.after t := by
  induction t generalizing p with
  | nil => rfl
  | cons c t ih =>
      have hnext : p.next (if c = '\n' then c else ' ') = p.next c := by
        by_cases hc : c = '\n'
        · rw [if_pos hc]
        · rw [if_neg hc, next, next, if_neg hc, if_neg (by decide)]
      change (p.next (if c = '\n' then c else ' ')).after (Text.blankOut t) = (p.next c).after t
      rw [hnext, ih]

theorem Text.isBlank_of_mem_blankOut {t : Text} : ∀ c ∈ t.blankOut, isBlank c = true := by
  intro c hc
  obtain ⟨d, _, rfl⟩ := List.mem_map.1 hc
  by_cases hd : d = '\n'
  · rw [if_pos hd, hd]
    rfl
  · rw [if_neg hd]
    rfl

/-! ### Blanks in a draft -/

namespace Draft

/-- The draft behind blanks. -/
def spaced (d : Draft) : Draft :=
  { d with reversed := space d.reversed }

theorem space_space (reversed : Text) : space (space reversed) = space reversed := by
  cases reversed with
  | nil => rfl
  | cons c reversed =>
      by_cases hc : c = ' '
      · simp [space, hc]
      · simp [space, hc]

theorem spaced_spaced (d : Draft) : d.spaced.spaced = d.spaced := by
  simp [spaced, space_space]

end Draft

namespace Cursor

/-- Any number of blanks, but at least one, are read as one. -/
theorem read_blanks {blanks : Text} (hne : blanks ≠ []) (hblanks : ∀ c ∈ blanks, isBlank c = true)
    (d : Draft) (p : Position) (t : Text) :
    read d p (blanks ++ t) = read d.spaced (p.after blanks) t := by
  induction blanks generalizing d p with
  | nil => exact absurd rfl hne
  | cons c blanks ih =>
      obtain ⟨hc, hrest⟩ := List.forall_mem_cons.1 hblanks
      have hread : Lexeme.read d.depth (c :: (blanks ++ t)) = .lexeme (.blank c) (blanks ++ t) :=
        Lexeme.read_of_reads (.blank _ hc)
      rw [List.cons_append, read_of_lexeme hread (fun m hm => by cases hm)]
      change read d.spaced (p.next c) (blanks ++ t) = _
      by_cases hnil : blanks = []
      · rw [hnil]
        rfl
      · rw [ih hnil hrest, Draft.spaced_spaced]
        rfl

/-- A comment is read as blanks are. -/
theorem read_comment {comment v : Text} {d : Draft}
    (h : Lexeme.read d.depth (comment ++ v) = .lexeme (.comment comment) v) (p : Position) :
    read d p (comment ++ v) = read d p (comment.blankOut ++ v) := by
  have hne : comment.blankOut ≠ [] := by
    simpa [Text.blankOut, Lexeme.source] using (Lexeme.read_append h).2
  rw [read_of_lexeme h (fun m hm => by cases hm), read_blanks hne Text.isBlank_of_mem_blankOut,
    Position.after_blankOut]
  rfl

/-! ### Calls -/

/-- A call for the next segment, or for the body of a block that opened at a position. -/
inductive Call where
  | next
  | capture (opened : Position)
deriving DecidableEq, Repr

/-- What a call returns. -/
inductive Answer where
  | segment (outcome : Except Fault Segment)
  | block (outcome : Except Fault Text)

def answer (c : Cursor) : Call → Answer
  | .next => .segment c.next.outcome
  | .capture opened => .block (c.capture opened).outcome

/-- The cursor that a call leaves behind. -/
def afterCall (c : Cursor) : Call → Cursor
  | .next => c.next.cursor
  | .capture opened => (c.capture opened).cursor

/-- The answers to calls made one after the other, with or without success, each with the position
behind it. -/
def answers (c : Cursor) : List Call → List (Answer × Position)
  | [] => []
  | call :: calls =>
      (c.answer call, (c.afterCall call).position) :: (c.afterCall call).answers calls

/-- Two cursors stand at the same place of one text, or before the seam of two texts with a common
front. -/
inductive Alike (x y : Text) (inner : Nat) : Cursor → Cursor → Prop
  | same (c : Cursor) : Alike x y inner c c
  | before (p : Position) {front : Text} (h : CommonFront x y inner 0 front) :
      Alike x y inner ⟨p, front ++ x⟩ ⟨p, front ++ y⟩

section Alike

variable {x y : Text} {inner : Nat} {c c' : Cursor}

theorem Alike.position_eq (h : Alike x y inner c c') : c.position = c'.position := by
  cases h with
  | same => rfl
  | before => rfl

variable (hjoin : ∀ (d : Draft) (p : Position), d.depth = inner → read d p x = read d p y)

include hjoin

theorem Alike.next (h : Alike x y inner c c') :
    c.next.outcome = c'.next.outcome ∧ Alike x y inner c.next.cursor c'.next.cursor := by
  cases h with
  | same c => exact ⟨rfl, .same _⟩
  | @before p front h =>
      unfold Cursor.next
      rcases read_front (d := .empty) h (.inl rfl) p with
        ⟨s, q, behind, _, hx, hy, hbehind⟩ | ⟨d, hdepth, _, hx, hy⟩
      · dsimp only
        rw [hx, hy]
        exact ⟨rfl, .before q hbehind⟩
      · dsimp only
        rw [hx, hy, hjoin d _ hdepth]
        exact ⟨rfl, .same _⟩

theorem Alike.captureFrom (opened : Position) (capture : Capture) (h : Alike x y inner c c') :
    (c.captureFrom opened capture).outcome = (c'.captureFrom opened capture).outcome ∧
      Alike x y inner (c.captureFrom opened capture).cursor
        (c'.captureFrom opened capture).cursor := by
  fun_induction Cursor.captureFrom opened capture c generalizing c' with
  | case1 capture c fault hs =>
      obtain ⟨houtcome, hcursor⟩ := h.next hjoin
      rw [captureFrom_of_error (houtcome.symm.trans hs)]
      exact ⟨rfl, hcursor⟩
  | case2 capture c s hs hn =>
      obtain ⟨houtcome, hcursor⟩ := h.next hjoin
      rw [captureFrom_of_end (houtcome.symm.trans hs) hn]
      exact ⟨rfl, hcursor⟩
  | case3 capture c s hs m hm body hstep =>
      obtain ⟨houtcome, hcursor⟩ := h.next hjoin
      rw [(captureFrom_of_mark (houtcome.symm.trans hs) hm opened).1 body hstep]
      exact ⟨rfl, hcursor⟩
  | case4 capture c s hs m hm longer hstep ih =>
      obtain ⟨houtcome, hcursor⟩ := h.next hjoin
      rw [(captureFrom_of_mark (houtcome.symm.trans hs) hm opened).2 longer hstep]
      exact ih hcursor

theorem Alike.afterCall (h : Alike x y inner c c') (call : Call) :
    c.answer call = c'.answer call ∧ Alike x y inner (c.afterCall call) (c'.afterCall call) := by
  cases call with
  | next =>
      obtain ⟨houtcome, hcursor⟩ := h.next hjoin
      exact ⟨congrArg Answer.segment houtcome, hcursor⟩
  | capture opened =>
      obtain ⟨houtcome, hcursor⟩ := h.captureFrom hjoin opened .empty
      exact ⟨congrArg Answer.block houtcome, hcursor⟩

theorem Alike.answers (h : Alike x y inner c c') (calls : List Call) :
    c.answers calls = c'.answers calls := by
  induction calls generalizing c c' with
  | nil => rfl
  | cons call calls ih =>
      obtain ⟨hanswer, hcursor⟩ := h.afterCall hjoin call
      rw [Cursor.answers, Cursor.answers, hanswer, hcursor.position_eq, ih hcursor]

theorem Alike.outcomes (h : Alike x y inner c c') :
    c.scans.map Scan.outcome = c'.scans.map Scan.outcome := by
  induction c using scanInduction generalizing c' with
  | fault c f hf =>
      obtain ⟨houtcome, _⟩ := h.next hjoin
      have hf' := houtcome.symm.trans hf
      simp [scans_of_error hf, scans_of_error hf', hf, hf']
  | finish c s hs hn =>
      obtain ⟨houtcome, _⟩ := h.next hjoin
      have hs' := houtcome.symm.trans hs
      simp [scans_of_end hs hn, scans_of_end hs' hn, hs, hs']
  | mark c s m hs hm ih =>
      obtain ⟨houtcome, hcursor⟩ := h.next hjoin
      have hs' := houtcome.symm.trans hs
      simp [scans_of_mark hs hm, scans_of_mark hs' hm, hs, hs', ih hcursor]

end Alike

/-! ### Before a comment -/

/-- The drafts that calls come to, each at a position and before a text: a call for a segment starts
with an empty draft wherever calls have led, and goes on lexeme by lexeme. The body of a block is
captured by calls for its segments, so that they are among these. -/
inductive Meets (c : Cursor) : Draft → Position → Text → Prop
  | call {c' : Cursor} (h : c.Reaches c') : Meets c .empty c'.position c'.rest
  | lexeme {d : Draft} {p : Position} {t rest : Text} {l : Lexeme} (h : Meets c d p t)
      (hread : Lexeme.read d.depth t = .lexeme l rest) (hl : ∀ m, l ≠ .mark m) :
      Meets c (d.add p l) (p.after l.source) rest

/-- Calls pass over a comment before which the cursor stands. -/
def Skips (c : Cursor) (comment rest : Text) : Prop :=
  ∃ d p, c.Meets d p (comment ++ rest) ∧
    Lexeme.read d.depth (comment ++ rest) = .lexeme (.comment comment) rest

end Cursor

/-- A text has a front in common with another one, up to a seam. -/
def HasFront (x y : Text) (inner depth : Nat) (t : Text) : Prop :=
  ∃ front, t = front ++ x ∧ CommonFront x y inner depth front

section HasFront

variable {x y : Text} {inner : Nat}
  (hx : x ≠ [])
  (hstops : ∀ depth l, Lexeme.Stops depth x.head? l → Lexeme.Stops depth y.head? l)

include hstops

theorem HasFront.lexeme {depth : Nat} {t rest : Text} {l : Lexeme}
    (hread : Lexeme.read depth t = .lexeme l rest)
    (h : HasFront x y inner (l.depthAfter depth) rest) : HasFront x y inner depth t := by
  obtain ⟨front, rfl, hfront⟩ := h
  obtain ⟨ht, hcons⟩ := hfront.cons_of_read hread fun _ => hstops depth l
  exact ⟨l.source ++ front, ht, hcons⟩

include hx

theorem HasFront.read {d : Draft} {p : Position} {t : Text}
    (h : HasFront x y inner 0 (Cursor.read d p t).cursor.rest) :
    HasFront x y inner d.depth t := by
  have hnil : ¬HasFront x y inner 0 [] := by
    rintro ⟨front, hfront, _⟩
    exact hx (List.append_eq_nil_iff.1 hfront.symm).2
  fun_induction Cursor.read d p t with
  | case1 => exact absurd h hnil
  | case2 => exact absurd h hnil
  | case3 d p t m rest hr => exact HasFront.lexeme hstops hr h
  | case4 d p t l rest hl hr ih =>
      have hdepth := ih h
      rw [d.depth_add p hl] at hdepth
      exact HasFront.lexeme hstops hr hdepth

/-- What is met further on in a text belongs to the text from the start. -/
theorem HasFront.of_meets {c : Cursor} {d : Draft} {p : Position} {t : Text}
    (hmeets : c.Meets d p t) (h : HasFront x y inner d.depth t) : HasFront x y inner 0 c.rest := by
  induction hmeets with
  | call hreaches =>
      -- Reaching goes forward, so it is the lack of a front that calls keep.
      by_contra hnot
      exact hreaches.keeps (motive := fun c => ¬HasFront x y inner 0 c.rest)
        (fun c hc hnext => hc (HasFront.read hx hstops hnext)) hnot h
  | @lexeme d p t rest l _ hread hl ih =>
      rw [d.depth_add p hl] at h
      exact ih (HasFront.lexeme hstops hread h)

end HasFront

namespace Cursor

theorem slash_of_comment {depth : Nat} {comment v : Text}
    (h : Lexeme.read depth (comment ++ v) = .lexeme (.comment comment) v) :
    ∃ body, comment = '/' :: body := by
  have hreads := Lexeme.reads_read depth (comment ++ v)
  rw [h] at hreads
  generalize comment ++ v = t at hreads
  cases hreads with
  | blockComment hclose => exact ⟨_, rfl⟩
  | lineComment hdepth hbody hrest => exact ⟨_, rfl⟩

/-- A lexeme that ends before a slash ends before a space. -/
theorem stops_space {depth : Nat} {l : Lexeme} (h : l.Stops depth (some '/')) :
    l.Stops depth (some ' ') := by
  cases l with
  | comment source =>
      intro hline
      cases h hline '/' rfl
  | char c => exact ⟨fun _ => ⟨by decide, fun _ => by decide⟩, fun _ => by decide⟩
  | blank c => trivial
  | quoted source => trivial
  | interpolation inside => trivial
  | mark m => trivial

theorem Skips.alike {u comment v : Text} (h : (start (u ++ (comment ++ v))).Skips comment v) :
    ∃ inner,
      (∀ (d : Draft) (p : Position), d.depth = inner →
        read d p (comment ++ v) = read d p (comment.blankOut ++ v)) ∧
      Alike (comment ++ v) (comment.blankOut ++ v) inner (start (u ++ (comment ++ v)))
        (start (u ++ (comment.blankOut ++ v))) := by
  obtain ⟨d, p, hmeets, hread⟩ := h
  obtain ⟨body, rfl⟩ := slash_of_comment hread
  have hfront : HasFront ('/' :: body ++ v) (Text.blankOut ('/' :: body) ++ v) d.depth 0
      (start (u ++ ('/' :: body ++ v))).rest :=
    HasFront.of_meets (List.cons_ne_nil _ _) (fun _ _ => stops_space) hmeets ⟨[], rfl, .nil⟩
  obtain ⟨front, _, hstart⟩ := start_append u
  rw [hstart _ (by simp)] at hfront ⊢
  rw [hstart _ (by simp [Text.blankOut])]
  obtain ⟨front', heq, hcommon⟩ := hfront
  obtain rfl := List.append_cancel_right heq
  refine ⟨d.depth, fun d' p hdepth => read_comment ?_ p, .before .start hcommon⟩
  rw [hdepth]
  exact hread

end Cursor

/-- Comments are exactly blanks. Where calls pass over a comment of a source, every sequence of calls
has the same answers, at the same positions, if the comment is made into spaces, and the source
holds the same. -/
theorem Extraction.comments_are_blanks (u comment v : Text)
    (h : (Cursor.start (u ++ comment ++ v)).Skips comment v) :
    (∀ calls, (Cursor.start (u ++ comment ++ v)).answers calls =
      (Cursor.start (u ++ comment.blankOut ++ v)).answers calls) ∧
    run (u ++ comment ++ v) = run (u ++ comment.blankOut ++ v) := by
  rw [List.append_assoc] at h ⊢
  rw [List.append_assoc]
  obtain ⟨inner, hjoin, halike⟩ := h.alike
  refine ⟨fun calls => halike.answers hjoin calls, ?_⟩
  unfold run
  rw [halike.outcomes hjoin]

theorem Extraction.comments_are_blanks_in_parentheses :
    (Cursor.start ("a\x7b(".toList ++ "/*;\n\x7d*/".toList ++ ");\x7d".toList)).Skips
        "/*;\n\x7d*/".toList ");\x7d".toList ∧
      run ("a\x7b(".toList ++ "/*;\n\x7d*/".toList ++ ");\x7d".toList) =
        run ("a\x7b(".toList ++ "   \n   ".toList ++ ");\x7d".toList) := by
  have hopened : (Cursor.start ("a\x7b(".toList ++ "/*;\n\x7d*/".toList ++
      ");\x7d".toList)).next.cursor = ⟨⟨1, 2⟩, "(/*;\n\x7d*/);\x7d".toList⟩ := by
    decide +kernel
  have hmeets := Cursor.Meets.call (.next (.refl (c := Cursor.start ("a\x7b(".toList ++
    "/*;\n\x7d*/".toList ++ ");\x7d".toList))))
  rw [hopened] at hmeets
  have hskips : (Cursor.start ("a\x7b(".toList ++ "/*;\n\x7d*/".toList ++
      ");\x7d".toList)).Skips "/*;\n\x7d*/".toList ");\x7d".toList := by
    refine ⟨_, _, hmeets.lexeme (l := .char '(') rfl (fun m hm => by cases hm), ?_⟩
    decide +kernel
  exact ⟨hskips,
    (comments_are_blanks "a\x7b(".toList "/*;\n\x7d*/".toList ");\x7d".toList hskips).2⟩

end Stylesheet
