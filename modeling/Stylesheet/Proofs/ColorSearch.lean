import Stylesheet.Proofs.Groups
import Stylesheet.Proofs.ValueKinds

/-! How a colour is found in a text.

A text is searched for a colour by the bytes of its UTF-8 form. From an offset on the next `#` is
looked up, the bytes of letters and digits behind it are passed over, and what was passed over is
cut out and read as a colour, channel by channel between two offsets (`Color.round`). If it is none,
the search goes on right behind the `#`, and so it comes to an end (`Color.search`). A cut inside a
character is a fault here as it is for groups. There is none: a letter or a digit has one byte, and
no other character starts with a byte like theirs, so every cut falls between two characters. What
is found is the first `#` with the digits of a colour behind it, as far as letters and digits go
(`Color.IsFirst`). -/

namespace Stylesheet

theorem isLetter_or_isDigit_iff (c : Char) :
    (isLetter c || isDigit c) = true ↔
      (48 ≤ c.toNat ∧ c.toNat ≤ 57) ∨ (65 ≤ c.toNat ∧ c.toNat ≤ 90) ∨
        (97 ≤ c.toNat ∧ c.toNat ≤ 122) := by
  simp only [isLetter, isDigit, Bool.or_eq_true, Bool.and_eq_true, decide_eq_true_eq, Char.le_def,
    UInt32.le_iff_toNat_le]
  change ((97 ≤ c.toNat ∧ c.toNat ≤ 122) ∨ (65 ≤ c.toNat ∧ c.toNat ≤ 90)) ∨
    (48 ≤ c.toNat ∧ c.toNat ≤ 57) ↔ _
  omega

namespace Text

/-! ### Bytes -/

/-- The bytes of a text in UTF-8. -/
def bytes (t : Text) : List UInt8 :=
  t.flatMap String.utf8EncodeChar

/-- The bytes of a text from an offset on. -/
def bytesFrom (offset : Nat) (t : Text) : Except GroupFault (List UInt8) :=
  if t.bytes.length < offset then .error .insideCharacter else .ok (t.bytes.drop offset)

/-- A byte that is a letter of the Latin alphabet or a digit. -/
def isWordByte (b : UInt8) : Bool :=
  ('0'.toUInt8 ≤ b && b ≤ '9'.toUInt8) || ('A'.toUInt8 ≤ b && b ≤ 'Z'.toUInt8) ||
    ('a'.toUInt8 ≤ b && b ≤ 'z'.toUInt8)

theorem bytes_cons (c : Char) (t : Text) : bytes (c :: t) = String.utf8EncodeChar c ++ bytes t :=
  rfl

theorem bytes_append (s t : Text) : bytes (s ++ t) = bytes s ++ bytes t :=
  List.flatMap_append

theorem length_bytes (t : Text) : t.bytes.length = t.byteLength := by
  induction t with
  | nil => rfl
  | cons c t ih =>
      rw [bytes_cons, List.length_append, String.length_utf8EncodeChar, ih, byteLength_cons]

theorem bytesFrom_append (s t : Text) : bytesFrom s.byteLength (s ++ t) = .ok t.bytes := by
  have hle : ¬(bytes (s ++ t)).length < s.byteLength := by
    rw [length_bytes, byteLength_append]
    omega
  rw [bytesFrom, if_neg hle, bytes_append, ← length_bytes, List.drop_left]

theorem isWordByte_iff (b : UInt8) :
    isWordByte b = true ↔
      (48 ≤ b.toNat ∧ b.toNat ≤ 57) ∨ (65 ≤ b.toNat ∧ b.toNat ≤ 90) ∨
        (97 ≤ b.toNat ∧ b.toNat ≤ 122) := by
  simp only [isWordByte, Bool.or_eq_true, Bool.and_eq_true, decide_eq_true_eq,
    UInt8.le_iff_toNat_le, or_assoc]
  rfl

/-- The first byte of a character tells whether it is a letter or a digit, and if it is one there
is no other byte. -/
theorem exists_bytes_char (c : Char) :
    ∃ b more, String.utf8EncodeChar c = b :: more ∧ isWordByte b = (isLetter c || isDigit c) ∧
      ((isLetter c || isDigit c) = true → more = []) := by
  have hword := isLetter_or_isDigit_iff c
  have hval : c.val.toNat = c.toNat := rfl
  -- A character of several bytes starts with one above all of ASCII.
  have hlong {n : Nat} {more : List UInt8} (hc : 127 < c.toNat) (hn : 128 ≤ n % 256) :
      ∃ b rest, UInt8.ofNat n :: more = b :: rest ∧ isWordByte b = (isLetter c || isDigit c) ∧
        ((isLetter c || isDigit c) = true → rest = []) := by
    refine ⟨_, _, rfl, ?_, fun h => ?_⟩
    · rw [Bool.eq_iff_iff, isWordByte_iff, hword, UInt8.toNat_ofNat']
      omega
    · rw [hword] at h
      omega
  unfold String.utf8EncodeChar
  dsimp only
  split
  · refine ⟨_, _, rfl, ?_, fun _ => rfl⟩
    rw [Bool.eq_iff_iff, isWordByte_iff, hword, UInt8.toNat_ofNat', hval]
    omega
  split
  · exact hlong (by omega) (by omega)
  split
  · exact hlong (by omega) (by omega)
  · exact hlong (by omega) (by omega)

/-- Letters and digits are passed over alike by characters and by bytes. -/
theorem takeWhile_bytes (t : Text) :
    t.bytes.takeWhile isWordByte = bytes (t.takeWhile fun c => isLetter c || isDigit c) := by
  induction t with
  | nil => rfl
  | cons c t ih =>
      obtain ⟨b, more, hbytes, hword, hmore⟩ := exists_bytes_char c
      rw [bytes_cons, hbytes, List.cons_append, List.takeWhile_cons, hword, List.takeWhile_cons]
      split
      · next h =>
        obtain rfl := hmore h
        rw [bytes_cons, hbytes, List.nil_append, ih]
        rfl
      · rfl

theorem byteLength_of_utf8Size {t : Text} (h : ∀ c ∈ t, c.utf8Size = 1) :
    t.byteLength = t.length := by
  induction t with
  | nil => rfl
  | cons c t ih =>
      obtain ⟨hc, ht⟩ := List.forall_mem_cons.1 h
      rw [byteLength_cons, hc, ih ht, List.length_cons, Nat.add_comm]

/-- Among characters of one byte each, offsets count characters. -/
theorem slice_of_utf8Size {t : Text} (h : ∀ c ∈ t, c.utf8Size = 1) {start width : Nat}
    (hle : start + width ≤ t.length) :
    slice start (start + width) t = .ok ((t.drop start).take width) := by
  have hlead : byteLength (t.take start) = start := by
    rw [byteLength_of_utf8Size fun c hc => h c (List.mem_of_mem_take hc), List.length_take]
    omega
  have hpart : byteLength ((t.drop start).take width) = width := by
    rw [byteLength_of_utf8Size fun c hc => h c (List.mem_of_mem_drop (List.mem_of_mem_take hc)),
      List.length_take, List.length_drop]
    omega
  have hslice := slice_append (t.take start) ((t.drop start).take width) ((t.drop start).drop width)
  rwa [byteLength_append, hlead, hpart, List.take_append_drop, List.take_append_drop] at hslice

theorem find?_append {mark : Char} {before : Text} (h : mark ∉ before) (after : Text) :
    find? [mark] (before ++ mark :: after) = some before.byteLength := by
  rcases find?_singleton_cases mark (before ++ mark :: after) with
    ⟨hnone, _⟩ | ⟨before', after', _, hsplit, hfind⟩
  · rw [splitFirst?_append h] at hnone
    cases hnone
  · rw [splitFirst?_append h] at hsplit
    cases hsplit
    exact hfind

theorem find?_of_not_mem {mark : Char} {t : Text} (h : mark ∉ t) : find? [mark] t = none := by
  rcases find?_singleton_cases mark t with ⟨_, hfind⟩ | ⟨before, after, rfl, _⟩
  · exact hfind
  · exact absurd (by simp) h

end Text

namespace Color

/-! ### Channels -/

/-- The number below 256 that hexadecimal digits stand for, with a plus before them or without. -/
def octet? (t : Text) : Option Nat :=
  let figures := (Text.after? ['+'] t).getD t
  if figures.isEmpty then none
  else
    (figures.mapM digit?).bind fun digits =>
      let n := digits.foldl (16 * · + ·) 0
      if n < 256 then some n else none

/-- The channel written at an offset with `width` digits, which count `times` times. -/
def channel (run : Text) (width times offset : Nat) : OptionT (Except GroupFault) Nat :=
  OptionT.mk do
    let figures ← Text.slice offset (offset + width) run
    return octet? (List.replicate times figures).flatten

/-- The colour whose channels are cut out of hexadecimal digits, three or four of them with one or
with two digits each. -/
def ofChannels (run : Text) : OptionT (Except GroupFault) Color :=
  let short := channel run 1 2
  let long := channel run 2 1
  match run.byteLength with
  | 3 => return ⟨← short 0, ← short 1, ← short 2, 255⟩
  | 4 => return ⟨← short 0, ← short 1, ← short 2, ← short 3⟩
  | 6 => return ⟨← long 0, ← long 2, ← long 4, 255⟩
  | 8 => return ⟨← long 0, ← long 2, ← long 4, ← long 6⟩
  | _ => failure

/-- The colour that a text of hexadecimal digits stands for, each channel cut out by its offset. -/
def ofHexByOffsets (t : Text) : Except GroupFault (Option Color) :=
  let run := (Text.after? ['#'] t).getD t
  if run.all isHexDigit then (ofChannels run).run else return none

theorem digit?_lt {c : Char} {d : Nat} (h : digit? c = some d) : d < 16 := by
  have hval : c.val.toNat = c.toNat := rfl
  have hcodes : '0'.toNat = 48 ∧ '9'.val.toNat = 57 ∧ 'a'.toNat = 97 ∧ 'f'.val.toNat = 102 ∧
      'A'.toNat = 65 ∧ 'F'.val.toNat = 70 := by decide
  simp only [digit?, isDigit, Bool.and_eq_true, decide_eq_true_eq, Char.le_def,
    UInt32.le_iff_toNat_le] at h
  split_ifs at h <;> cases h <;> omega

theorem octet?_pair {c c' : Char} {d d' : Nat} (h : digit? c = some d) (h' : digit? c' = some d') :
    octet? [c, c'] = some (16 * d + d') := by
  have hd := digit?_lt h
  have hd' := digit?_lt h'
  have hplus : Text.after? ['+'] [c, c'] = none := by
    rw [Option.eq_none_iff_forall_not_mem]
    intro rest hrest
    obtain ⟨rfl, _⟩ := List.cons.inj (Text.after?_eq_some_iff.1 hrest)
    cases h
  have hsmall : 16 * d + d' < 256 := by omega
  simp [octet?, hplus, h, h', hsmall]

theorem utf8Size_of_isHexDigit {c : Char} (h : isHexDigit c = true) : c.utf8Size = 1 := by
  have hword := (isLetter_or_isDigit_iff c).1 (isLetter_or_isDigit_of_isHexDigit h)
  have hval : c.val.toNat = c.toNat := rfl
  have hlast : (127 : UInt32).toNat = 127 := rfl
  rw [Char.utf8Size_eq_one_iff, UInt32.le_iff_toNat_le]
  omega

section Digits

variable {run : Text} {digits : List Nat} (h : run.mapM digit? = some digits)
include h

theorem isHexDigit_of_mapM : ∀ c ∈ run, isHexDigit c = true := by
  intro c hc
  obtain ⟨d, hd⟩ := exists_of_mapM h hc
  rw [← isSome_digit?, hd]
  rfl

theorem utf8Size_of_mapM : ∀ c ∈ run, c.utf8Size = 1 :=
  fun c hc => utf8Size_of_isHexDigit (isHexDigit_of_mapM h c hc)

theorem exists_figure {i d : Nat} (hd : digits[i]? = some d) :
    ∃ c, i < run.length ∧ run.drop i = c :: run.drop (i + 1) ∧ digit? c = some d := by
  have hread : (run.map digit?)[i]? = some (some d) := by
    rw [mapM_eq_some_iff.1 h, List.getElem?_map, hd]
    rfl
  rw [List.getElem?_map] at hread
  obtain ⟨c, hc, hdigit⟩ := Option.map_eq_some_iff.1 hread
  obtain ⟨hlt, rfl⟩ := List.getElem?_eq_some_iff.1 hc
  exact ⟨_, hlt, List.drop_eq_getElem_cons hlt, hdigit⟩

theorem channel_of_mapM {width offset : Nat} (times : Nat) (hle : offset + width ≤ run.length) :
    channel run width times offset =
      OptionT.mk (.ok (octet? (List.replicate times ((run.drop offset).take width)).flatten)) := by
  rw [channel, Text.slice_of_utf8Size (utf8Size_of_mapM h) hle]
  rfl

theorem channel_short {i d : Nat} (hd : digits[i]? = some d) :
    channel run 1 2 i = pure (17 * d) := by
  obtain ⟨c, hlt, hdrop, hc⟩ := exists_figure h hd
  have hread : octet? [c, c] = some (17 * d) := by
    rw [octet?_pair hc hc]
    congr 1
    omega
  rw [channel_of_mapM h 2 hlt, hdrop]
  show OptionT.mk (Except.ok (octet? [c, c])) = _
  rw [hread]
  rfl

theorem channel_long {i d d' : Nat} (hd : digits[i]? = some d) (hd' : digits[i + 1]? = some d') :
    channel run 2 1 i = pure (16 * d + d') := by
  obtain ⟨c, _, hdrop, hc⟩ := exists_figure h hd
  obtain ⟨c', hlt, hdrop', hc'⟩ := exists_figure h hd'
  rw [channel_of_mapM h 1 hlt, hdrop, hdrop']
  show OptionT.mk (Except.ok (octet? [c, c'])) = _
  rw [octet?_pair hc hc']
  rfl

theorem byteLength_of_mapM : run.byteLength = digits.length := by
  rw [Text.byteLength_of_utf8Size (utf8Size_of_mapM h)]
  exact length_eq_of_mapM h

/-- No cut of a channel goes wrong. -/
theorem ofChannels_of_mapM : (ofChannels run).run = .ok (ofDigits? digits) := by
  unfold ofChannels
  dsimp only
  rw [byteLength_of_mapM h]
  split
  · next hthree =>
    obtain ⟨r, g, b, rfl⟩ := List.length_eq_three.1 hthree
    rw [channel_short h (i := 0) rfl, channel_short h (i := 1) rfl, channel_short h (i := 2) rfl]
    rfl
  · next hfour =>
    obtain ⟨r, g, b, a, rfl⟩ := List.length_eq_four.1 hfour
    rw [channel_short h (i := 0) rfl, channel_short h (i := 1) rfl, channel_short h (i := 2) rfl,
      channel_short h (i := 3) rfl]
    rfl
  · next hsix =>
    match digits, hsix with
    | [r, r', g, g', b, b'], _ =>
        rw [channel_long h (i := 0) rfl rfl, channel_long h (i := 2) rfl rfl,
          channel_long h (i := 4) rfl rfl]
        rfl
  · next height =>
    match digits, height with
    | [r, r', g, g', b, b', a, a'], _ =>
        rw [channel_long h (i := 0) rfl rfl, channel_long h (i := 2) rfl rfl,
          channel_long h (i := 4) rfl rfl, channel_long h (i := 6) rfl rfl]
        rfl
  · next hthree hfour hsix height =>
    have hnone : ofDigits? digits = none := by
      rw [← Option.not_isSome_iff_eq_none, isSome_ofDigits?_iff]
      simpa using ⟨hthree, hfour, hsix, height⟩
    rw [hnone]
    rfl

end Digits

/-- Channel by channel a text stands for the same colour as by its digits. -/
theorem ofHexByOffsets_eq (t : Text) : ofHexByOffsets t = .ok (ofHex? t) := by
  unfold ofHexByOffsets ofHex?
  dsimp only
  generalize (Text.after? ['#'] t).getD t = run
  cases hdigits : run.mapM digit? with
  | none =>
      have hnot : ¬run.all isHexDigit = true := by
        intro hall
        obtain ⟨digits, hsome⟩ := exists_mapM_iff.2 fun c hc =>
          Option.isSome_iff_exists.1 ((isSome_digit? c).trans (List.all_eq_true.1 hall c hc))
        rw [hdigits] at hsome
        cases hsome
      rw [if_neg hnot]
      rfl
  | some digits =>
      rw [if_pos (List.all_eq_true.2 (isHexDigit_of_mapM hdigits)), ofChannels_of_mapM hdigits]
      rfl

/-! ### Rounds of the search -/

/-- What a round of the search comes to. -/
inductive Round where
  /-- A colour stands at the next `#`. -/
  | found (token : Text)
  /-- There is no `#` any more. -/
  | absent
  /-- No colour stands at the next `#`, and the search goes on from an offset. -/
  | further (start : Nat)
deriving DecidableEq, Repr

/-- One round of the search: the next `#` from an offset on, and the letters and digits behind it by
their bytes. -/
def round (t : Text) (start : Nat) : Except GroupFault Round := do
  let rest ← Text.slice start t.byteLength t
  match Text.find? ['#'] rest with
  | none => return .absent
  | some offset =>
      let hash := start + offset
      let behind ← Text.bytesFrom (hash + 1) t
      let stop := ((behind.findIdx? (!Text.isWordByte ·)).map (hash + 1 + ·)).getD t.bytes.length
      let token ← Text.slice hash stop t
      let color ← ofHexByOffsets token
      return if color.isSome then .found token else .further (hash + 1)

/-- A round that does not end the search goes on behind its start, and inside the text. -/
theorem lt_of_round {t : Text} {start next : Nat} (h : round t start = .ok (.further next)) :
    start < next ∧ next ≤ t.byteLength := by
  obtain ⟨rest, _, h⟩ := exists_of_bind h
  split at h
  · cases h
  · next offset _ =>
    obtain ⟨behind, hbehind, h⟩ := exists_of_bind h
    obtain ⟨token, _, h⟩ := exists_of_bind h
    obtain ⟨color, _, h⟩ := exists_of_bind h
    have hnext : next = start + offset + 1 := by
      split at h
      · cases h
      · cases h
        rfl
    have hinside : ¬t.bytes.length < start + offset + 1 := by
      intro hlt
      rw [Text.bytesFrom, if_pos hlt] at hbehind
      cases hbehind
    rw [Text.length_bytes] at hinside
    omega

/-- The first colour in a text from an offset on, searched round by round. -/
def search (t : Text) (start : Nat) : Except GroupFault (Option Text) :=
  match _h : round t start with
  | .error fault => .error fault
  | .ok (.found token) => .ok (some token)
  | .ok .absent => .ok none
  | .ok (.further next) => search t next
termination_by t.byteLength - start
decreasing_by
  have hnext := lt_of_round ‹_›
  omega

theorem round_of_not_mem {rest : Text} (h : '#' ∉ rest) (lead : Text) :
    round (lead ++ rest) lead.byteLength = .ok .absent := by
  have hrest := Text.slice_append lead rest []
  rw [List.append_nil] at hrest
  rw [round, hrest]
  dsimp only [bind, Except.bind]
  rw [Text.find?_of_not_mem h]
  rfl

/-- The `#` and all letters and digits right behind it. -/
def hashWord (after : Text) : Text :=
  '#' :: after.takeWhile fun c => isLetter c || isDigit c

theorem byteLength_hashWord (front after : Text) :
    (front ++ hashWord after).byteLength =
      front.byteLength + 1 + (after.bytes.takeWhile Text.isWordByte).length := by
  have hhash : '#'.utf8Size = 1 := rfl
  rw [Text.takeWhile_bytes, Text.length_bytes, hashWord, Text.byteLength_append,
    Text.byteLength_cons, hhash]
  omega

theorem slice_hashWord (front after : Text) :
    Text.slice front.byteLength (front ++ hashWord after).byteLength (front ++ '#' :: after) =
      .ok (hashWord after) := by
  have hslice := Text.slice_append front (hashWord after)
    (after.dropWhile fun c => isLetter c || isDigit c)
  rwa [hashWord, List.cons_append, List.takeWhile_append_dropWhile] at hslice

/-- A round that comes to a `#` cuts out all letters and digits behind it. -/
theorem round_hash {before : Text} (h : '#' ∉ before) (lead after : Text) :
    round (lead ++ (before ++ '#' :: after)) lead.byteLength =
      .ok (if (ofHex? (hashWord after)).isSome then .found (hashWord after)
        else .further (lead ++ (before ++ ['#'])).byteLength) := by
  have hrest := Text.slice_append lead (before ++ '#' :: after) []
  rw [List.append_nil] at hrest
  rw [round, hrest]
  dsimp only [bind, Except.bind]
  rw [Text.find?_append h]
  dsimp only
  -- All offsets are counted from the front of the `#`.
  have hnext : (lead ++ (before ++ ['#'])).byteLength = (lead ++ before).byteLength + 1 := by
    rw [← List.append_assoc, Text.byteLength_append]
    rfl
  rw [hnext, ← Text.byteLength_append, ← List.append_assoc]
  generalize lead ++ before = front
  have hbehind : Text.bytesFrom (front.byteLength + 1) (front ++ '#' :: after) =
      .ok after.bytes := by
    have hfrom := Text.bytesFrom_append (front ++ ['#']) after
    rwa [Text.byteLength_append, ← List.append_cons] at hfrom
  have hlength : (Text.bytes (front ++ '#' :: after)).length =
      front.byteLength + 1 + after.bytes.length := by
    rw [Text.length_bytes, Text.length_bytes, Text.byteLength_append, Text.byteLength_cons,
      Nat.add_assoc]
    rfl
  rw [hbehind]
  dsimp only
  rw [hlength, getD_findIdx?, ← byteLength_hashWord, slice_hashWord]
  dsimp only
  rw [ofHexByOffsets_eq]
  rfl

/-! ### The first colour -/

theorem hexToken?_append {before : Text} (h : '#' ∉ before) (rest : Text) :
    hexToken? (before ++ rest) = hexToken? rest := by
  induction before with
  | nil => rfl
  | cons c before ih =>
      rw [List.mem_cons, not_or] at h
      rw [List.cons_append, hexToken?, if_neg fun hc => h.1 hc.1.symm, ih h.2]

theorem hexToken?_of_not_mem {t : Text} (h : '#' ∉ t) : hexToken? t = none := by
  have hnone := hexToken?_append h []
  rwa [List.append_nil] at hnone

theorem hexToken?_hash (after : Text) :
    hexToken? ('#' :: after) =
      if (ofHex? (hashWord after)).isSome then some (hashWord after)
      else hexToken? after := by
  rw [hexToken?, hashWord]
  exact if_congr (and_iff_right rfl) rfl rfl

theorem search_of_round {t : Text} {start : Nat} {r : Round} :
    round t start = .ok r →
      search t start =
        match r with
        | .found token => .ok (some token)
        | .absent => .ok none
        | .further next => search t next := by
  intro h
  rw [search]
  split
  · next hround => cases h.symm.trans hround
  · next hround =>
    cases h.symm.trans hround
    rfl
  · next hround =>
    cases h.symm.trans hround
    rfl
  · next hround =>
    cases h.symm.trans hround
    rfl

/-- From the front of any rest of a text the search has no fault and finds the first colour of the
rest. -/
theorem search_append (lead rest : Text) :
    search (lead ++ rest) lead.byteLength = .ok (hexToken? rest) := by
  -- A rejected `#` goes over to the front, and what is left behind it is shorter.
  induction hlength : rest.length using Nat.strong_induction_on generalizing lead rest with
  | _ n ih =>
      by_cases hmem : '#' ∈ rest
      · obtain ⟨before, after, rfl, hbefore⟩ := List.eq_append_cons_of_mem hmem
        rw [hexToken?_append hbefore, hexToken?_hash,
          search_of_round (round_hash hbefore lead after)]
        by_cases hcolor : (ofHex? (hashWord after)).isSome = true
        · rw [if_pos hcolor, if_pos hcolor]
        · rw [if_neg hcolor, if_neg hcolor]
          have hshorter : after.length < n := by
            rw [List.length_append, List.length_cons] at hlength
            omega
          have hnext := ih after.length hshorter (lead ++ (before ++ ['#'])) after rfl
          rwa [List.append_assoc, List.append_assoc, List.singleton_append] at hnext
      · rw [search_of_round (round_of_not_mem hmem lead), hexToken?_of_not_mem hmem]

/-- The first colour that stands in a text. -/
structure IsFirst (t front run : Text) : Prop where
  stands : StandsAt t front run
  first : ∀ front' run', StandsAt t front' run' → front.length ≤ front'.length

/-- At one place stands one colour. -/
theorem StandsAt.unique {t front run front' run' : Text} (h : StandsAt t front run)
    (h' : StandsAt t front' run') (hlength : front.length = front'.length) :
    front = front' ∧ run = run' := by
  obtain ⟨hrun, after, rfl, hafter⟩ := h
  obtain ⟨hrun', after', hsplit, hafter'⟩ := h'
  obtain ⟨hfront, hrest⟩ := List.append_inj hsplit hlength
  have htake := congrArg (List.takeWhile fun c => isLetter c || isDigit c) (List.cons.inj hrest).2
  rw [takeWhile_of_hasDigits hrun hafter, takeWhile_of_hasDigits hrun' hafter'] at htake
  exact ⟨hfront, htake⟩

theorem IsFirst.unique {t front run front' run' : Text} (h : IsFirst t front run)
    (h' : IsFirst t front' run') : run = run' :=
  (h.stands.unique h'.stands (Nat.le_antisymm (h.first _ _ h'.stands) (h'.first _ _ h.stands))).2

theorem exists_isFirst {t token : Text} (h : hexToken? t = some token) :
    ∃ front run, token = '#' :: run ∧ IsFirst t front run := by
  induction t with
  | nil => cases h
  | cons c t ih =>
      have hdigits := isSome_ofHex?_iff (t.takeWhile fun d => isLetter d || isDigit d)
      rw [hexToken?] at h
      split at h
      · next hcolor =>
        cases h
        refine ⟨[], _, rfl, standsAt_cons_iff.2 (.inl ⟨rfl, hcolor.1, rfl, hdigits.1 hcolor.2⟩),
          fun _ _ _ => Nat.zero_le _⟩
      · next hcolor =>
        obtain ⟨front, run, rfl, hstands, hfirst⟩ := ih h
        refine ⟨c :: front, run, rfl, standsAt_cons_iff.2 (.inr ⟨front, rfl, hstands⟩), ?_⟩
        intro front' run' hstands'
        rcases standsAt_cons_iff.1 hstands' with ⟨_, hc, rfl, hrun⟩ | ⟨front', rfl, hlater⟩
        · exact absurd ⟨hc, hdigits.2 hrun⟩ hcolor
        · exact Nat.succ_le_succ (hfirst front' run' hlater)

theorem hexToken?_eq_some_iff {t token : Text} :
    hexToken? t = some token ↔ ∃ front run, token = '#' :: run ∧ IsFirst t front run := by
  constructor
  · exact exists_isFirst
  · rintro ⟨front, run, rfl, hfirst⟩
    have hstands : StandsIn t := (standsIn_iff t).2 ⟨front, run, hfirst.stands⟩
    obtain ⟨token, htoken⟩ := Option.isSome_iff_exists.1 ((isSome_hexToken?_iff t).2 hstands)
    obtain ⟨front', run', rfl, hfirst'⟩ := exists_isFirst htoken
    rw [htoken, hfirst.unique hfirst']

/-- The search of a text comes to an end, as each round starts behind the last one and inside the
text, and no cut goes wrong. It finds a token if a colour stands in the text, and then that of the
first colour, which reads as a colour. -/
theorem search_finds_first (t : Text) :
    (∀ start next, round t start = .ok (.further next) → start < next ∧ next ≤ t.byteLength) ∧
      search t 0 = .ok (hexToken? t) ∧
      ((∃ token, hexToken? t = some token) ↔ ∃ front run, StandsAt t front run) ∧
      (∀ token, hexToken? t = some token ↔
        ∃ front run, token = '#' :: run ∧ IsFirst t front run) ∧
      ∀ token, hexToken? t = some token → ∃ color, ofHexByOffsets token = .ok (some color) := by
  refine ⟨fun _ _ h => lt_of_round h, search_append [] t, ?_, fun _ => hexToken?_eq_some_iff,
    fun token h => ?_⟩
  · rw [← standsIn_iff, ← isSome_hexToken?_iff, Option.isSome_iff_exists]
  · obtain ⟨front, run, rfl, hfirst⟩ := exists_isFirst h
    obtain ⟨color, hcolor⟩ :=
      Option.isSome_iff_exists.1 ((isSome_ofHex?_iff run).2 hfirst.stands.digits)
    exact ⟨color, by rw [ofHexByOffsets_eq, hcolor]⟩

theorem search_finds_first_behind_words :
    round "#abg é#FfFé".toList 0 = .ok (.further 1) ∧
      0 < 1 ∧ 1 ≤ Text.byteLength "#abg é#FfFé".toList ∧
      hexToken? "#abg é#FfFé".toList = some "#FfF".toList ∧
      search "#abg é#FfFé".toList 0 = .ok (some "#FfF".toList) ∧
      ∃ color, ofHexByOffsets "#FfF".toList = .ok (some color) := by
  have hround : round "#abg é#FfFé".toList 0 = .ok (.further 1) := by decide +kernel
  have htoken : hexToken? "#abg é#FfFé".toList = some "#FfF".toList := by decide +kernel
  obtain ⟨hfurther, hsearch, _, _, hread⟩ := search_finds_first "#abg é#FfFé".toList
  obtain ⟨hlt, hle⟩ := hfurther 0 1 hround
  exact ⟨hround, hlt, hle, htoken, htoken ▸ hsearch, hread _ htoken⟩

end Color

end Stylesheet
