import LtrData.StrArc.Backup
import Mathlib.Data.List.Infix
import Mathlib.Data.List.Basic

namespace StrArc

/-- A string as the command line has it, without null characters. -/
structure CString where
  units : UnicodeString
  noNull : ∀ unit ∈ units, unit ≠ 0

def comma : WCHAR := 0x2C

/-- The memory wcstok works on, split at the pointer it keeps between its calls. -/
structure Tokenizer where
  passed : List WCHAR
  left : List WCHAR

def skipDelimiters (passed : List WCHAR) : List WCHAR → Tokenizer
  | [] => ⟨passed, []⟩
  | unit :: left =>
    if unit = comma then skipDelimiters (passed ++ [unit]) left else ⟨passed, unit :: left⟩

/-- The delimiter behind a token is overwritten, those in front of one are not. -/
def endToken (passed : List WCHAR) : List WCHAR → Tokenizer
  | [] => ⟨passed, []⟩
  | unit :: left =>
    if unit = 0 then ⟨passed, unit :: left⟩
    else if unit = comma then ⟨passed ++ [0], left⟩
    else endToken (passed ++ [unit]) left

/-- `wcstok(NULL, L",")`, with the position of the token in the memory. -/
def wcstok (t : Tokenizer) : Option Nat × Tokenizer :=
  let start := skipDelimiters t.passed t.left
  let stop := endToken start.passed start.left
  (if start.passed.length = stop.passed.length then none else some start.passed.length, stop)

theorem skipDelimiters_left (passed left : List WCHAR) :
    (skipDelimiters passed left).left.length + (skipDelimiters passed left).passed.length =
      left.length + passed.length := by
  induction left generalizing passed with
  | nil => rfl
  | cons unit left ih =>
    unfold skipDelimiters
    split
    · rw [ih, List.length_append, List.length_cons, List.length_cons, List.length_nil]
      omega
    · rfl

theorem endToken_left (passed left : List WCHAR) :
    (endToken passed left).left.length + (endToken passed left).passed.length =
      left.length + passed.length := by
  induction left generalizing passed with
  | nil => rfl
  | cons unit left ih =>
    unfold endToken
    split
    · rfl
    split
    · simp only [List.length_append, List.length_cons, List.length_nil]
      omega
    · rw [ih, List.length_append, List.length_cons, List.length_cons, List.length_nil]
      omega

theorem skipDelimiters_passed (passed left : List WCHAR) :
    passed.length ≤ (skipDelimiters passed left).passed.length := by
  induction left generalizing passed with
  | nil => exact Nat.le_refl _
  | cons unit left ih =>
    unfold skipDelimiters
    split
    · have longer := ih (passed ++ [unit])
      rw [List.length_append] at longer
      omega
    · exact Nat.le_refl _

theorem endToken_passed (passed left : List WCHAR) :
    passed.length ≤ (endToken passed left).passed.length := by
  induction left generalizing passed with
  | nil => exact Nat.le_refl _
  | cons unit left ih =>
    unfold endToken
    split
    · exact Nat.le_refl _
    split
    · rw [List.length_append]
      exact Nat.le_add_right _ _
    · have longer := ih (passed ++ [unit])
      rw [List.length_append] at longer
      omega

theorem wcstok_left {t t' : Tokenizer} {start : Nat} (found : wcstok t = (some start, t')) :
    t'.left.length < t.left.length := by
  simp only [wcstok, Prod.mk.injEq] at found
  obtain ⟨moved, rfl⟩ := found
  split at moved
  · cases moved
  · have skipped := skipDelimiters_left t.passed t.left
    have ended := endToken_left (skipDelimiters t.passed t.left).passed
      (skipDelimiters t.passed t.left).left
    have before := skipDelimiters_passed t.passed t.left
    have behind := endToken_passed (skipDelimiters t.passed t.left).passed
      (skipDelimiters t.passed t.left).left
    omega

/-- The loop of SetIncludeExcludeStrings, with the number of tokens it counts. -/
def countTokens (t : Tokenizer) : Nat × Tokenizer :=
  match found : wcstok t with
  | (some _, t') =>
    have := wcstok_left found
    let counted := countTokens t'
    (counted.1 + 1, counted.2)
  | (none, t') => (0, t')
termination_by t.left.length

/-- `dwStrings` and `szStrings`, with the memory behind the pointer. -/
structure FilterStrings where
  dwStrings : Nat
  memory : List WCHAR
  szStrings : Option Nat

def setIncludeExcludeStrings : Option CString → FilterStrings
  | none => ⟨0, [], none⟩
  | some wczNewStrings =>
    let first := wcstok ⟨[], wczNewStrings.units ++ [0]⟩
    let counted := countTokens first.2
    ⟨(1 + counted.1) % 2 ^ 32, counted.2.passed ++ counted.2.left, first.1⟩

/-- The length of the string at the start of the memory, if it ends within it. -/
def wcslen : List WCHAR → Option Nat
  | [] => none
  | unit :: memory => if unit = 0 then some 0 else (wcslen memory).map (· + 1)

/-- Whether `_wcsnicmp` finds the first `n` characters equal. -/
def wcsnicmp (lower : WCHAR → WCHAR) : Nat → List WCHAR → List WCHAR → Bool
  | 0, _, _ => true
  | n + 1, unit :: first, unit' :: second =>
    if lower unit = lower unit' then
      if lower unit = 0 then true else wcsnicmp lower n first second
    else false
  | _ + 1, _, _ => false

/-- The loop over the path, at a string of this length. -/
def foundIn (lower : WCHAR → WCHAR) (string : List WCHAR) (length : Nat) : List WCHAR → Bool
  | [] => length = 0
  | unit :: rest =>
    if length ≤ (unit :: rest).length then
      if wcsnicmp lower length (unit :: rest) string then true
      else foundIn lower string length rest
    else false

/-- The loop over the strings, from a pointer on. There is no result if it reads outside them. -/
def walkStrings (lower : WCHAR → WCHAR) (memory : List WCHAR) (Path : UnicodeString) :
    Nat → Nat → Option Bool
  | 0, _ => some false
  | n + 1, string => do
    let length ← wcslen (memory.drop string)
    if foundIn lower (memory.drop string) length Path then some true
    else walkStrings lower memory Path n (string + length + 1)

/-- The loops for one of the options, which are not entered without it. -/
def FilterStrings.found (strings : FilterStrings) (lower : WCHAR → WCHAR) (Path : UnicodeString) :
    Option Bool :=
  if strings.dwStrings = 0 then some false
  else do
    let string ← strings.szStrings
    walkStrings lower strings.memory Path strings.dwStrings string

/-- ExcludedString's `*Excluded` and `*Included` with the stored strings as they are in memory. -/
def excludedStringIn (lower : WCHAR → WCHAR) (exclude include_ : FilterStrings)
    (Path : UnicodeString) : Option (Bool × Bool) :=
  if Path = [] then some (false, true)
  else do
    if ← exclude.found lower Path then pure (true, false)
    else if include_.dwStrings = 0 then pure (false, true)
    else pure (false, ← include_.found lower Path)

/-- A part of the path, up to case. -/
def Contains (lower : WCHAR → WCHAR) (Path item : UnicodeString) : Prop :=
  item.map lower <:+: Path.map lower

instance (lower : WCHAR → WCHAR) (Path item : UnicodeString) : Decidable (Contains lower Path item) :=
  inferInstanceAs (Decidable (_ <:+: _))

def CString.items (s : CString) : List UnicodeString := (s.units.splitOn comma).filter (· ≠ [])

/-- Whether an item of the option, if it is given, occurs in the path. -/
def occursOf (lower : WCHAR → WCHAR) (Path : UnicodeString) : Option CString → Bool
  | none => false
  | some s => s.items.any fun item => Contains lower Path item

/-- What the manual says about the two options. -/
def documented (lower : WCHAR → WCHAR) (exclude include_ : Option CString) (Path : UnicodeString) :
    Bool × Bool :=
  (occursOf lower Path exclude,
    !occursOf lower Path exclude && (include_.isNone || occursOf lower Path include_))

/-- The items with the number of commas in front of them that do not end another item. -/
def spaced (commas : Nat) : List UnicodeString → List (Nat × UnicodeString)
  | [] => []
  | piece :: pieces =>
    if piece = [] then spaced (commas + 1) pieces else (commas, piece) :: spaced 0 pieces

/-- Commas at the start of the string are passed over. -/
def CString.tokens (s : CString) : List (Nat × UnicodeString) :=
  spaced 0 ((s.units.splitOn comma).dropWhile (· = []))

/-- No item is only found behind the commas in front of it. -/
structure WellSeparated (lower : WCHAR → WCHAR) (exclude include_ : Option CString) : Prop where
  excluding : ∀ s, exclude = some s → s.items ≠ [] ∧ ∀ token ∈ s.tokens, token.1 ≠ 0 →
    ∃ item, (0, item) ∈ s.tokens ∧ Contains lower token.2 item
  including : ∀ s, include_ = some s → s.items ≠ [] ∧ ∀ token ∈ s.tokens, token.1 ≠ 0 →
    (∃ item, (0, item) ∈ s.tokens ∧ Contains lower token.2 item) ∨
      occursOf lower token.2 exclude

section tokens

variable {lower : WCHAR → WCHAR}

/-- The pieces of a string, with the commas between them and the null character. -/
def text : List UnicodeString → List WCHAR
  | [] => [0]
  | [piece] => piece ++ [0]
  | piece :: next :: pieces => piece ++ comma :: text (next :: pieces)

/-- The same memory once all tokens have been found. -/
def tokenised : List UnicodeString → List WCHAR
  | [] => [0]
  | [piece] => piece ++ [0]
  | piece :: next :: pieces =>
    piece ++ (if piece = [] then comma else 0) :: tokenised (next :: pieces)

def Pieces (pieces : List UnicodeString) : Prop :=
  ∀ piece ∈ pieces, ∀ unit ∈ piece, unit ≠ comma ∧ unit ≠ 0

theorem text_splitOn (units : UnicodeString) : text (units.splitOn comma) = units ++ [0] := by
  induction units with
  | nil => rfl
  | cons unit units ih =>
    rw [List.splitOn_cons_eq_if_modifyHead]
    obtain ⟨piece, pieces, split⟩ := List.exists_cons_of_ne_nil (List.splitOn_ne_nil comma units)
    rw [split] at ih ⊢
    by_cases delimiter : unit = comma
    · rw [if_pos (by simp [delimiter]), text, ih, delimiter]
      rfl
    · rw [if_neg (by simp [delimiter])]
      cases pieces with
      | nil => exact congrArg (unit :: ·) ih
      | cons next pieces => exact congrArg (unit :: ·) ih

theorem CString.pieces (s : CString) : Pieces (s.units.splitOn comma) := by
  obtain ⟨units, noNull⟩ := s
  induction units with
  | nil =>
    intro piece mem
    obtain rfl := List.mem_singleton.mp mem
    exact fun _ absurd => by cases absurd
  | cons unit units ih =>
    have rest := ih fun unit mem => noNull unit (List.mem_cons_of_mem _ mem)
    obtain ⟨piece, pieces, split⟩ := List.exists_cons_of_ne_nil (List.splitOn_ne_nil comma units)
    dsimp only at rest ⊢
    rw [List.splitOn_cons_eq_if_modifyHead]
    rw [split] at rest ⊢
    by_cases delimiter : unit = comma
    · rw [if_pos (by simp [delimiter])]
      intro other mem
      rcases List.mem_cons.mp mem with rfl | mem
      · exact fun _ absurd => by cases absurd
      · exact rest other mem
    · rw [if_neg (by simp [delimiter])]
      intro other mem
      rcases List.mem_cons.mp mem with rfl | mem
      · intro unit' mem
        rcases List.mem_cons.mp mem with rfl | mem
        · exact ⟨delimiter, noNull _ List.mem_cons_self⟩
        · exact rest piece List.mem_cons_self unit' mem
      · exact rest other (List.mem_cons_of_mem _ mem)

theorem skipDelimiters_token (passed : List WCHAR) {unit : WCHAR} (token : unit ≠ comma)
    (left : List WCHAR) : skipDelimiters passed (unit :: left) = ⟨passed, unit :: left⟩ := by
  unfold skipDelimiters
  rw [if_neg token]

theorem endToken_token (passed : List WCHAR) {piece : UnicodeString}
    (token : ∀ unit ∈ piece, unit ≠ comma ∧ unit ≠ 0) (left : List WCHAR) :
    endToken passed (piece ++ left) = endToken (passed ++ piece) left := by
  induction piece generalizing passed with
  | nil => rw [List.append_nil, List.nil_append]
  | cons unit piece ih =>
    obtain ⟨apart, ended⟩ := token unit List.mem_cons_self
    rw [List.cons_append, endToken, if_neg ended, if_neg apart,
      ih _ fun other mem => token other (List.mem_cons_of_mem _ mem), List.append_assoc]
    rfl

theorem wcstok_comma (passed left : List WCHAR) :
    wcstok ⟨passed, comma :: left⟩ = wcstok ⟨passed ++ [comma], left⟩ := by
  unfold wcstok skipDelimiters
  rw [if_pos rfl]
  cases left <;> rfl

theorem wcstok_eq {passed left : List WCHAR} {start stop : Tokenizer}
    (skipped : skipDelimiters passed left = start)
    (ended : endToken start.passed start.left = stop) : wcstok ⟨passed, left⟩ =
      (if start.passed.length = stop.passed.length then none else some start.passed.length, stop) := by
  rw [← ended, ← skipped]
  rfl

theorem wcstok_end (passed : List WCHAR) : wcstok ⟨passed, [0]⟩ = (none, ⟨passed, [0]⟩) := by
  have skipped : skipDelimiters passed [0] = ⟨passed, [0]⟩ := skipDelimiters_token _ (by decide) _
  rw [wcstok_eq skipped (if_pos rfl), if_pos rfl]

theorem wcstok_token (passed : List WCHAR) {piece : UnicodeString} (nonempty : piece ≠ [])
    (token : ∀ unit ∈ piece, unit ≠ comma ∧ unit ≠ 0) (left : List WCHAR) :
    wcstok ⟨passed, piece ++ 0 :: left⟩ = (some passed.length, ⟨passed ++ piece, 0 :: left⟩) ∧
      wcstok ⟨passed, piece ++ comma :: left⟩ =
        (some passed.length, ⟨passed ++ piece ++ [0], left⟩) := by
  have skipped (left : List WCHAR) : skipDelimiters passed (piece ++ left) = ⟨passed, piece ++ left⟩ := by
    obtain ⟨unit, rest, rfl⟩ := List.exists_cons_of_ne_nil nonempty
    exact skipDelimiters_token _ (token unit List.mem_cons_self).1 _
  have length := List.length_pos_iff.mpr nonempty
  have ended : endToken passed (piece ++ 0 :: left) = ⟨passed ++ piece, 0 :: left⟩ :=
    (endToken_token _ token _).trans (if_pos rfl)
  have cut : endToken passed (piece ++ comma :: left) = ⟨passed ++ piece ++ [0], left⟩ :=
    endToken_token _ token _
  rw [wcstok_eq (skipped _) ended, wcstok_eq (skipped _) cut]
  dsimp only
  rw [if_neg, if_neg]
  · exact ⟨rfl, rfl⟩
  · rw [List.length_append, List.length_append]
    omega
  · rw [List.length_append]
    omega

theorem countTokens_eq {t t' : Tokenizer} {start : Option Nat} (found : wcstok t = (start, t')) :
    countTokens t =
      if start.isSome then ((countTokens t').1 + 1, (countTokens t').2) else (0, t') := by
  rw [countTokens]
  split
  · next found' =>
    rw [found] at found'
    cases found'
    rfl
  · next found' =>
    rw [found] at found'
    cases found'
    rfl

theorem countTokens_some {t t' : Tokenizer} {start : Nat} (found : wcstok t = (some start, t')) :
    countTokens t = ((countTokens t').1 + 1, (countTokens t').2) := countTokens_eq found

theorem countTokens_none {t t' : Tokenizer} (found : wcstok t = (none, t')) :
    countTokens t = (0, t') := countTokens_eq found

theorem countTokens_comma (passed left : List WCHAR) :
    countTokens ⟨passed, comma :: left⟩ = countTokens ⟨passed ++ [comma], left⟩ := by
  cases found : wcstok ⟨passed, comma :: left⟩ with
  | mk start t' =>
    have found' := found
    rw [wcstok_comma] at found'
    cases start with
    | none => rw [countTokens_none found, countTokens_none found']
    | some start => rw [countTokens_some found, countTokens_some found']

theorem wcstok_again {t t' : Tokenizer} (nothing : wcstok t = (none, t')) :
    wcstok t' = (none, t') := by
  simp only [wcstok, Prod.mk.injEq] at nothing
  obtain ⟨same, rfl⟩ := nothing
  generalize skipDelimiters t.passed t.left = start at same ⊢
  obtain ⟨passed, left⟩ := start
  cases left with
  | nil => rw [wcstok_eq rfl rfl]; exact Prod.ext (if_pos rfl) rfl
  | cons unit left =>
    by_cases ended : unit = 0
    · subst ended
      have stays : endToken passed (0 :: left) = ⟨passed, 0 :: left⟩ := if_pos rfl
      rw [stays, wcstok_eq (skipDelimiters_token _ (by decide) _) stays, if_pos rfl]
    · have longer : (passed ++ [unit]).length ≤ (endToken passed (unit :: left)).passed.length := by
        rw [endToken, if_neg ended]
        split
        · exact Nat.le_of_eq (by rw [List.length_append, List.length_append]; rfl)
        · exact endToken_passed _ _
      rw [List.length_append] at longer
      split at same
      · next equal =>
        dsimp only at equal
        rw [← equal] at longer
        exact absurd longer (by simp)
      · cases same

theorem countTokens_text (pieces : List UnicodeString) (plain : Pieces pieces) (commas : Nat)
    (passed : List WCHAR) :
    (countTokens ⟨passed, text pieces⟩).1 = (spaced commas pieces).length ∧
      (countTokens ⟨passed, text pieces⟩).2.passed ++ (countTokens ⟨passed, text pieces⟩).2.left =
        passed ++ tokenised pieces := by
  induction pieces using text.induct generalizing commas passed with
  | case1 =>
    rw [text, countTokens_none (wcstok_end passed)]
    exact ⟨rfl, rfl⟩
  | case2 piece =>
    by_cases empty : piece = []
    · rw [empty, text, List.nil_append, countTokens_none (wcstok_end passed)]
      exact ⟨rfl, rfl⟩
    · have token := plain piece List.mem_cons_self
      rw [text, countTokens_some (wcstok_token passed empty token []).1,
        countTokens_none (wcstok_end _), spaced, if_neg empty, tokenised, List.append_assoc]
      exact ⟨rfl, rfl⟩
  | case3 piece next pieces ih =>
    have rest : Pieces (next :: pieces) := fun other mem => plain other (List.mem_cons_of_mem _ mem)
    by_cases empty : piece = []
    · rw [empty, text, List.nil_append, countTokens_comma, spaced, if_pos rfl, tokenised, if_pos rfl]
      have counted := ih rest (commas + 1) (passed ++ [comma])
      rw [List.append_assoc] at counted
      exact counted
    · have token := plain piece List.mem_cons_self
      rw [text, countTokens_some (wcstok_token passed empty token _).2, spaced, if_neg empty,
        tokenised, if_neg empty]
      have counted := ih rest 0 (passed ++ piece ++ [0])
      refine ⟨congrArg (· + 1) counted.1, counted.2.trans ?_⟩
      rw [List.append_assoc, List.append_assoc]
      rfl

theorem wcstok_text (pieces : List UnicodeString) (plain : Pieces pieces) (passed : List WCHAR) :
    match pieces.dropWhile (· = []) with
    | [] => (wcstok ⟨passed, text pieces⟩).1 = none
    | trimmed => ∃ start, (wcstok ⟨passed, text pieces⟩).1 = some start ∧
        (passed ++ tokenised pieces).drop start = tokenised trimmed := by
  induction pieces using text.induct generalizing passed with
  | case1 => exact congrArg Prod.fst (wcstok_end passed)
  | case2 piece =>
    by_cases empty : piece = []
    · subst empty
      exact congrArg Prod.fst (wcstok_end passed)
    · rw [List.dropWhile_cons_of_neg (by simpa using empty)]
      have found := (wcstok_token passed empty (plain piece List.mem_cons_self) []).1
      exact ⟨passed.length, congrArg Prod.fst found, List.drop_left⟩
  | case3 piece next pieces ih =>
    have rest : Pieces (next :: pieces) := fun other mem => plain other (List.mem_cons_of_mem _ mem)
    by_cases empty : piece = []
    · subst empty
      rw [List.dropWhile_cons_of_pos (by simp), text, List.nil_append, wcstok_comma, tokenised,
        if_pos rfl]
      have found := ih rest (passed ++ [comma])
      rw [List.append_assoc] at found
      exact found
    · rw [List.dropWhile_cons_of_neg (by simpa using empty)]
      have found := (wcstok_token passed empty (plain piece List.mem_cons_self) (text (next :: pieces))).2
      exact ⟨passed.length, congrArg Prod.fst found, List.drop_left⟩

/-- What the walk takes for a token. -/
def walked (token : Nat × UnicodeString) : UnicodeString :=
  List.replicate token.1 comma ++ token.2

theorem wcsnicmp_front {string : UnicodeString} (noNull : ∀ unit ∈ string, lower unit ≠ 0)
    (path memory : List WCHAR) : wcsnicmp lower string.length path (string ++ memory) ↔
      string.map lower <+: path.map lower := by
  induction string generalizing path with
  | nil => simp [wcsnicmp]
  | cons unit string ih =>
    have ih := ih fun unit mem => noNull unit (List.mem_cons_of_mem _ mem)
    cases path with
    | nil => simp [wcsnicmp]
    | cons unit' path =>
      rw [List.cons_append, List.length_cons, wcsnicmp, List.map_cons, List.map_cons,
        List.cons_prefix_cons, ← ih]
      by_cases same : lower unit' = lower unit
      · rw [if_pos same, same, if_neg (noNull unit List.mem_cons_self)]
        exact ⟨fun rest => ⟨rfl, rest⟩, fun both => both.2⟩
      · rw [if_neg same]
        exact ⟨fun absurd => (by cases absurd), fun both => absurd both.1.symm same⟩

theorem foundIn_contains {string : UnicodeString} (nonempty : string ≠ [])
    (noNull : ∀ unit ∈ string, lower unit ≠ 0) (memory Path : List WCHAR) :
    foundIn lower (string ++ memory) string.length Path ↔ Contains lower Path string := by
  unfold Contains
  induction Path with
  | nil => simp [foundIn, nonempty]
  | cons unit rest ih =>
    have step : string.map lower <:+: (unit :: rest).map lower ↔
        string.map lower <+: (unit :: rest).map lower ∨ string.map lower <:+: rest.map lower :=
      List.infix_cons_iff
    rw [step, ← ih, ← wcsnicmp_front noNull (unit :: rest) memory, foundIn]
    by_cases room : string.length ≤ (unit :: rest).length
    · rw [if_pos room]
      split <;> simp_all
    · have short : ¬ foundIn lower (string ++ memory) string.length rest := by
        intro found
        have fits := (ih.mp found).length_le
        simp only [List.length_map, List.length_cons] at fits room
        omega
      have apart : ¬ wcsnicmp lower string.length (unit :: rest) (string ++ memory) := by
        intro same
        have fits := ((wcsnicmp_front noNull _ memory).mp same).length_le
        rw [List.length_map, List.length_map] at fits
        exact room fits
      rw [if_neg room]
      exact ⟨fun absurd => (by cases absurd), fun found => (found.elim apart short).elim⟩

theorem wcslen_string {string : UnicodeString} (noNull : ∀ unit ∈ string, unit ≠ 0)
    (memory : List WCHAR) : wcslen (string ++ 0 :: memory) = some string.length := by
  induction string with
  | nil => exact if_pos rfl
  | cons unit string ih =>
    rw [List.cons_append, wcslen, if_neg (noNull unit List.mem_cons_self),
      ih fun unit mem => noNull unit (List.mem_cons_of_mem _ mem)]
    rfl

theorem spaced_noNull {pieces : List UnicodeString} (plain : Pieces pieces) (commas : Nat) :
    ∀ token ∈ spaced commas pieces, token.2 ∈ pieces ∧ token.2 ≠ [] ∧
      ∀ unit ∈ token.2, unit ≠ comma ∧ unit ≠ 0 := by
  induction pieces generalizing commas with
  | nil => exact fun _ absurd => by cases absurd
  | cons piece pieces ih =>
    have ih := ih fun other mem => plain other (List.mem_cons_of_mem _ mem)
    intro token mem
    unfold spaced at mem
    by_cases empty : piece = []
    · rw [if_pos empty] at mem
      obtain ⟨found, rest⟩ := ih _ token mem
      exact ⟨List.mem_cons_of_mem _ found, rest⟩
    · rw [if_neg empty] at mem
      rcases List.mem_cons.mp mem with rfl | mem
      · exact ⟨List.mem_cons_self, empty, plain piece List.mem_cons_self⟩
      · obtain ⟨found, rest⟩ := ih _ token mem
        exact ⟨List.mem_cons_of_mem _ found, rest⟩

/-- The walk looks for each token together with the commas left in front of it. -/
theorem walkStrings_tokenised {pieces : List UnicodeString} (plain : Pieces pieces)
    (null_alone : ∀ unit, lower unit = 0 → unit = 0) {memory : List WCHAR} (Path : UnicodeString)
    (commas string : Nat)
    (at_ : memory.drop string = List.replicate commas comma ++ tokenised pieces) :
    walkStrings lower memory Path (spaced commas pieces).length string =
      some ((spaced commas pieces).any fun token => Contains lower Path (walked token)) := by
  have step (token : Nat × UnicodeString) (nonempty : token.2 ≠ [])
      (noNull : ∀ unit ∈ token.2, unit ≠ comma ∧ unit ≠ 0) (rest : List WCHAR) (string n : Nat)
      (at_ : memory.drop string = walked token ++ 0 :: rest) :
      walkStrings lower memory Path (n + 1) string =
        if Contains lower Path (walked token) then some true
        else walkStrings lower memory Path n (string + (walked token).length + 1) := by
    have units : ∀ unit ∈ walked token, unit ≠ 0 := by
      intro unit mem
      rcases List.mem_append.mp mem with fill | mem
      · rw [(List.mem_replicate.mp fill).2]
        decide
      · exact (noNull unit mem).2
    have some_unit : walked token ≠ [] := List.append_ne_nil_of_right_ne_nil _ nonempty
    have found := foundIn_contains some_unit
      (fun unit mem null => units unit mem (null_alone unit null)) (0 :: rest) Path
    rw [walkStrings, at_, wcslen_string units]
    show (if foundIn lower (walked token ++ 0 :: rest) (walked token).length Path then _ else _) = _
    by_cases contains : Contains lower Path (walked token)
    · rw [if_pos contains, if_pos (found.mpr contains)]
    · rw [if_neg contains, if_neg fun h => contains (found.mp h)]
  have beyond {token : Nat × UnicodeString} {rest : List WCHAR} {string : Nat}
      (at_ : memory.drop string = walked token ++ 0 :: rest) :
      memory.drop (string + (walked token).length + 1) = rest := by
    rw [Nat.add_assoc, ← List.drop_drop, at_, ← List.drop_drop, List.drop_left]
    rfl
  induction pieces using tokenised.induct generalizing commas string with
  | case1 => rfl
  | case2 piece =>
    by_cases empty : piece = []
    · rw [spaced, if_pos empty]
      rfl
    · rw [spaced, if_neg empty]
      have at_ : memory.drop string = walked (commas, piece) ++ 0 :: [] := by
        rw [at_, walked, List.append_assoc]
        rfl
      show walkStrings lower memory Path (0 + 1) string = _
      rw [step (commas, piece) empty (plain piece List.mem_cons_self) [] string 0 at_]
      by_cases contains : Contains lower Path (walked (commas, piece))
      · simp [contains]
      · simp [contains, walkStrings, spaced]
  | case3 piece next pieces ih =>
    have rest : Pieces (next :: pieces) := fun other mem => plain other (List.mem_cons_of_mem _ mem)
    by_cases empty : piece = []
    · rw [spaced, if_pos empty]
      apply ih rest
      rw [at_, tokenised, if_pos empty, empty, List.replicate_succ', List.append_assoc]
      rfl
    · rw [spaced, if_neg empty]
      have at_ : memory.drop string = walked (commas, piece) ++ 0 :: tokenised (next :: pieces) := by
        rw [at_, tokenised, if_neg empty, walked, List.append_assoc]
      rw [List.length_cons, step (commas, piece) empty (plain piece List.mem_cons_self) _ string _ at_,
        ih rest 0 _ (beyond at_)]
      by_cases contains : Contains lower Path (walked (commas, piece))
      · simp [contains]
      · simp [contains]

theorem spaced_items (commas : Nat) (pieces : List UnicodeString) :
    (spaced commas pieces).map Prod.snd = pieces.filter (· ≠ []) := by
  induction pieces generalizing commas with
  | nil => rfl
  | cons piece pieces ih =>
    by_cases empty : piece = []
    · rw [spaced, if_pos empty, ih, List.filter_cons_of_neg (by simp [empty])]
    · rw [spaced, if_neg empty, List.map_cons, ih, List.filter_cons_of_pos (by simp [empty])]

theorem CString.tokens_items (s : CString) : s.tokens.map Prod.snd = s.items := by
  unfold tokens items
  rw [spaced_items]
  induction s.units.splitOn comma with
  | nil => rfl
  | cons piece pieces ih =>
    by_cases empty : piece = []
    · rw [List.dropWhile_cons_of_pos (by simp [empty]), ih, List.filter_cons_of_neg (by simp [empty])]
    · rw [List.dropWhile_cons_of_neg (by simp [empty])]

theorem CString.trimmed (s : CString) : Pieces ((s.units.splitOn comma).dropWhile (· = [])) :=
  fun piece mem => s.pieces piece ((List.dropWhile_sublist _).subset mem)

theorem CString.token_units (s : CString) {token : Nat × UnicodeString} (mem : token ∈ s.tokens) :
    token.2 ≠ [] ∧ ∀ unit ∈ token.2, unit ≠ comma ∧ unit ≠ 0 :=
  (spaced_noNull s.trimmed 0 token mem).2

theorem FilterStrings.found_tokens (null_alone : ∀ unit, lower unit = 0 → unit = 0) (s : CString)
    (fewer : s.items.length < 2 ^ 32) (Path : UnicodeString) :
    (setIncludeExcludeStrings (some s)).dwStrings ≠ 0 ∧
      (setIncludeExcludeStrings (some s)).found lower Path =
        if s.items = [] then none
        else some (s.tokens.any fun token => Contains lower Path (walked token)) := by
  have counted := countTokens_text _ s.pieces 0 []
  have first := wcstok_text _ s.pieces []
  have items : s.items.length = (spaced 0 (s.units.splitOn comma)).length := by
    rw [← List.length_map Prod.snd, spaced_items]
    rfl
  have tokens : s.items.length = s.tokens.length := by
    rw [← s.tokens_items, List.length_map]
  rw [text_splitOn] at counted first
  obtain ⟨⟨start, t'⟩, outcome⟩ : ∃ found, wcstok ⟨[], s.units ++ [0]⟩ = found := ⟨_, rfl⟩
  rw [outcome] at first
  cases start with
  | none =>
    rw [countTokens_none outcome] at counted
    have none_found : s.items = [] := List.length_eq_zero_iff.mp (items.trans counted.1.symm)
    have stored : setIncludeExcludeStrings (some s) = ⟨1, t'.passed ++ t'.left, none⟩ := by
      rw [setIncludeExcludeStrings, outcome]
      dsimp only
      rw [countTokens_none (wcstok_again outcome)]
      rfl
    rw [stored, if_pos none_found]
    exact ⟨Nat.one_ne_zero, rfl⟩
  | some start =>
    rw [countTokens_some outcome] at counted
    dsimp only at counted
    have count : (1 + (countTokens t').1) % 2 ^ 32 = s.tokens.length := by
      rw [Nat.add_comm, counted.1, ← items, Nat.mod_eq_of_lt fewer, tokens]
    have some_found : s.tokens.length ≠ 0 := by
      rw [← tokens, items, ← counted.1]
      exact Nat.succ_ne_zero _
    have stored : setIncludeExcludeStrings (some s) =
        ⟨s.tokens.length, tokenised (s.units.splitOn comma), some start⟩ := by
      rw [setIncludeExcludeStrings, outcome]
      dsimp only
      rw [count, counted.2, List.nil_append]
    rw [stored, if_neg fun none => some_found (by rw [← tokens, none]; rfl)]
    refine ⟨some_found, ?_⟩
    rw [FilterStrings.found, if_neg some_found]
    split at first
    · cases first
    · obtain ⟨start', is, at_⟩ := first
      cases is
      exact walkStrings_tokenised s.trimmed null_alone Path 0 start at_

theorem contains_walked (token : Nat × UnicodeString) {Path : UnicodeString}
    (contains : Contains lower Path (walked token)) : Contains lower Path token.2 := by
  unfold walked Contains at *
  rw [List.map_append] at contains
  exact (List.suffix_append _ _).isInfix.trans contains

theorem direct_of_contains (comma_alone : ∀ unit, lower unit = lower comma → unit = comma)
    {token : Nat × UnicodeString} {Path : UnicodeString} (plain : ∀ unit ∈ Path, unit ≠ comma)
    (contains : Contains lower Path (walked token)) : token.1 = 0 := by
  by_contra some_comma
  have mem : lower comma ∈ (walked token).map lower :=
    List.mem_map_of_mem (List.mem_append_left _ (List.mem_replicate.mpr ⟨some_comma, rfl⟩))
  obtain ⟨unit, mem, same⟩ := List.mem_map.mp (contains.subset mem)
  exact plain unit mem (comma_alone unit same)

theorem occursOf_tokens (s : CString) (Path : UnicodeString) :
    occursOf lower Path (some s) ↔ ∃ token ∈ s.tokens, Contains lower Path token.2 := by
  rw [occursOf, ← s.tokens_items]
  simp

end tokens

variable {lower : WCHAR → WCHAR}

theorem FilterStrings.found_items (null_alone : ∀ unit, lower unit = 0 → unit = 0) {s : CString}
    (fewer : s.items.length < 2 ^ 32) (some_item : s.items ≠ []) {Path : UnicodeString}
    (apart : ∀ token ∈ s.tokens, Contains lower Path token.2 → token.1 ≠ 0 →
      ∃ item, (0, item) ∈ s.tokens ∧ Contains lower Path item) :
    (setIncludeExcludeStrings (some s)).found lower Path = some (occursOf lower Path (some s)) := by
  rw [(FilterStrings.found_tokens null_alone s fewer Path).2, if_neg some_item, Option.some_inj,
    Bool.eq_iff_iff, occursOf_tokens, List.any_eq_true]
  constructor
  · intro ⟨token, mem, found⟩
    exact ⟨token, mem, contains_walked token (of_decide_eq_true found)⟩
  · intro ⟨token, mem, contains⟩
    by_cases direct : token.1 = 0
    · obtain ⟨commas, item⟩ := token
      subst direct
      exact ⟨(0, item), mem, decide_eq_true contains⟩
    · obtain ⟨item, mem, contains⟩ := apart token mem contains direct
      exact ⟨(0, item), mem, decide_eq_true contains⟩

theorem excludedStringIn_iff (null_alone : ∀ unit, lower unit = 0 → unit = 0)
    (exclude : Option CString) {include_ : Option CString}
    (fewer : ∀ s, include_ = some s → s.items.length < 2 ^ 32) {Path : UnicodeString}
    (nonempty : Path ≠ []) :
    excludedStringIn lower (setIncludeExcludeStrings exclude) (setIncludeExcludeStrings include_)
        Path = some (documented lower exclude include_ Path) ↔
      (setIncludeExcludeStrings exclude).found lower Path = some (occursOf lower Path exclude) ∧
        ∀ s, include_ = some s → occursOf lower Path exclude = false →
          (setIncludeExcludeStrings (some s)).found lower Path =
            some (occursOf lower Path (some s)) := by
  unfold excludedStringIn documented
  rw [if_neg nonempty]
  cases excluded : (setIncludeExcludeStrings exclude).found lower Path with
  | none => simp
  | some found =>
    cases found with
    | true => cases occursOf lower Path exclude <;> simp
    | false =>
      cases include_ with
      | none =>
        have none_given : (setIncludeExcludeStrings none).dwStrings = 0 := rfl
        cases occursOf lower Path exclude <;> simp [none_given]
      | some s =>
        have given := (FilterStrings.found_tokens null_alone s (fewer s rfl) Path).1
        cases occursOf lower Path exclude with
        | true =>
          cases (setIncludeExcludeStrings (some s)).found lower Path <;> simp [given]
        | false =>
          cases included : (setIncludeExcludeStrings (some s)).found lower Path <;>
            simp [given, included]

theorem Contains.trans {Path between item : UnicodeString} (outer : Contains lower Path between)
    (inner : Contains lower between item) : Contains lower Path item :=
  List.IsInfix.trans inner outer

theorem FilterStrings.found_direct (null_alone : ∀ unit, lower unit = 0 → unit = 0)
    (comma_alone : ∀ unit, lower unit = lower comma → unit = comma) {s : CString}
    (fewer : s.items.length < 2 ^ 32) {token : Nat × UnicodeString} (mem : token ∈ s.tokens)
    (found : (setIncludeExcludeStrings (some s)).found lower token.2 =
      some (occursOf lower token.2 (some s))) :
    ∃ item, (0, item) ∈ s.tokens ∧ Contains lower token.2 item := by
  have itself : occursOf lower token.2 (some s) := (occursOf_tokens s token.2).mpr ⟨token, mem, List.infix_refl _⟩
  rw [(FilterStrings.found_tokens null_alone s fewer token.2).2, itself] at found
  split at found
  · cases found
  · obtain ⟨⟨commas, item⟩, mem', contains⟩ := List.any_eq_true.mp (Option.some_inj.mp found)
    have contains := of_decide_eq_true contains
    obtain rfl : commas = 0 := direct_of_contains comma_alone
      (fun unit mem'' => ((s.token_units mem).2 unit mem'').1) contains
    exact ⟨item, mem', contains⟩

/-- The path "," has no item in it. -/
theorem occursOf_comma (comma_alone : ∀ unit, lower unit = lower comma → unit = comma)
    (strings : Option CString) : occursOf lower [comma] strings = false := by
  cases strings with
  | none => rfl
  | some s =>
    rw [Bool.eq_false_iff]
    intro occurs
    obtain ⟨token, mem, contains⟩ := (occursOf_tokens s _).mp occurs
    obtain ⟨nonempty, units⟩ := s.token_units mem
    obtain ⟨unit, rest, is⟩ := List.exists_cons_of_ne_nil nonempty
    have first : unit ∈ token.2 := is ▸ List.mem_cons_self
    have same := List.mem_singleton.mp (contains.subset (List.mem_map_of_mem first))
    exact (units unit first).1 (comma_alone unit same)

/-- ExcludedString reports what the manual says for every path exactly if both strings have items
    and no item is only found behind superfluous commas. -/
theorem excludedStringIn_documented (lower : WCHAR → WCHAR)
    (null_alone : ∀ unit, lower unit = 0 → unit = 0)
    (comma_alone : ∀ unit, lower unit = lower comma → unit = comma)
    (exclude include_ : Option CString)
    (fewer : ∀ s, exclude = some s ∨ include_ = some s → s.items.length < 2 ^ 32) :
    (∀ Path, Path ≠ [] → excludedStringIn lower (setIncludeExcludeStrings exclude)
        (setIncludeExcludeStrings include_) Path =
      some (documented lower exclude include_ Path)) ↔ WellSeparated lower exclude include_ := by
  have loops (Path : UnicodeString) (nonempty : Path ≠ []) := excludedStringIn_iff null_alone
    exclude (fun s given => fewer s (.inr given)) nonempty
  constructor
  · intro documents
    have reports (Path : UnicodeString) (nonempty : Path ≠ []) :=
      (loops Path nonempty).mp (documents Path nonempty)
    refine ⟨fun s given => ?_, fun s given => ?_⟩
    · have few := fewer s (.inl given)
      subst given
      refine ⟨fun none_found => ?_, fun token mem _ => ?_⟩
      · have found := (reports [comma] (List.cons_ne_nil _ _)).1
        rw [(FilterStrings.found_tokens null_alone s few _).2, if_pos none_found] at found
        cases found
      · exact FilterStrings.found_direct null_alone comma_alone few mem
          (reports token.2 (s.token_units mem).1).1
    · have few := fewer s (.inr given)
      refine ⟨fun none_found => ?_, fun token mem _ => ?_⟩
      · have found := (reports [comma] (List.cons_ne_nil _ _)).2 s given (occursOf_comma comma_alone _)
        rw [(FilterStrings.found_tokens null_alone s few _).2, if_pos none_found] at found
        cases found
      · cases excluded : occursOf lower token.2 exclude with
        | true => exact .inr rfl
        | false => exact .inl (FilterStrings.found_direct null_alone comma_alone few mem
            ((reports token.2 (s.token_units mem).1).2 s given excluded))
  · intro separated Path nonempty
    refine (loops Path nonempty).mpr ⟨?_, fun s given free => ?_⟩
    · cases exclude with
      | none => rfl
      | some s =>
        obtain ⟨some_item, direct⟩ := separated.excluding s rfl
        apply FilterStrings.found_items null_alone (fewer s (.inl rfl)) some_item
        intro token mem contains behind
        obtain ⟨item, found, inner⟩ := direct token mem behind
        exact ⟨item, found, contains.trans inner⟩
    · obtain ⟨some_item, direct⟩ := separated.including s given
      apply FilterStrings.found_items null_alone (fewer s (.inr given)) some_item
      intro token mem contains behind
      rcases direct token mem behind with ⟨item, found, inner⟩ | excluded
      · exact ⟨item, found, contains.trans inner⟩
      · cases exclude with
        | none => cases excluded
        | some s' =>
          obtain ⟨token', mem', inner⟩ := (occursOf_tokens s' token.2).mp excluded
          have occurs := (occursOf_tokens s' Path).mpr ⟨token', mem', contains.trans inner⟩
          rw [free] at occurs
          cases occurs

/-- The strings the walk comes across. -/
def storedStrings : Option CString → List UnicodeString
  | none => []
  | some s => s.tokens.map walked

theorem occursIn_contains (Path string : UnicodeString) :
    occursIn lower Path string ↔ Contains lower Path string := by
  unfold occursIn Contains
  rw [List.any_eq_true, List.infix_iff_prefix_suffix]
  constructor
  · intro ⟨tail, mem, same⟩
    have same := of_decide_eq_true same
    have suffix_ : tail.map lower <:+ Path.map lower := ((List.mem_tails _ _).mp mem).map lower
    refine ⟨tail.map lower, ?_, suffix_⟩
    rw [← same, List.map_take]
    exact List.take_prefix _ _
  · intro ⟨tail, prefix_, before, is⟩
    obtain ⟨first, rest, rfl, -, rfl⟩ := List.map_eq_append_iff.mp is.symm
    refine ⟨rest, (List.mem_tails _ _).mpr (List.suffix_append _ _), decide_eq_true ?_⟩
    rw [List.map_take, ← List.length_map lower, ← List.prefix_iff_eq_take.mp prefix_]

/-- The filter of a backup is the walk through what the options have stored. -/
theorem excludedStringIn_stored {F : Type} (c : BackupConfig F)
    (null_alone : ∀ unit, c.lower unit = 0 → unit = 0) (exclude include_ : Option CString)
    (given : ∀ s, exclude = some s ∨ include_ = some s → s.items ≠ [] ∧ s.items.length < 2 ^ 32)
    (excludes : c.options.szExcludeStrings = storedStrings exclude)
    (includes : c.options.szIncludeStrings = storedStrings include_) (Path : UnicodeString) :
    excludedStringIn c.lower (setIncludeExcludeStrings exclude) (setIncludeExcludeStrings include_)
      Path = some (excludedString c Path) := by
  have found (strings : Option CString) (named : exclude = strings ∨ include_ = strings) :
      (setIncludeExcludeStrings strings).found c.lower Path =
        some ((storedStrings strings).any (occursIn c.lower Path)) := by
    cases strings with
    | none => rfl
    | some s =>
      obtain ⟨some_item, few⟩ := given s named
      rw [(FilterStrings.found_tokens null_alone s few Path).2, if_neg some_item, storedStrings,
        List.any_map]
      congr 2
      funext token
      rw [Bool.eq_iff_iff, Function.comp_apply, occursIn_contains, decide_eq_true_iff]
  unfold excludedStringIn excludedString
  by_cases empty : Path = []
  · rw [if_pos empty, if_pos empty]
  · rw [if_neg empty, if_neg empty, found exclude (.inl rfl), excludes]
    cases (storedStrings exclude).any (occursIn c.lower Path) with
    | true => rfl
    | false =>
      rw [found include_ (.inr rfl), includes]
      cases include_ with
      | none => rfl
      | some s =>
        obtain ⟨some_item, few⟩ := given s (.inr rfl)
        have stored : storedStrings (some s) ≠ [] := by
          rw [storedStrings, Ne, List.map_eq_nil_iff, ← List.map_eq_nil_iff (f := Prod.snd), s.tokens_items]
          exact some_item
        have count := (FilterStrings.found_tokens null_alone s few Path).1
        simp [count, stored]

def separatedStrings : CString := ⟨[0x61, comma, 0x62], by simp [comma]⟩

def doubledStrings : CString := ⟨[0x61, comma, comma, 0x62], by simp [comma]⟩

theorem excludedStringIn_documented_separated :
    [0x62] ≠ [] ∧ excludedStringIn id (setIncludeExcludeStrings (some separatedStrings))
      (setIncludeExcludeStrings none) [0x62] = some (true, false) := by
  have tokens : separatedStrings.tokens = [(0, [0x61]), (0, [0x62])] := by decide +kernel
  have items : separatedStrings.items = [[0x61], [0x62]] := by decide +kernel
  have separated : WellSeparated id (some separatedStrings) none := by
    refine ⟨fun s given => ?_, fun _ absurd => by cases absurd⟩
    cases given
    rw [tokens, items]
    exact ⟨List.cons_ne_nil _ _, by simp⟩
  have few : ∀ s, some separatedStrings = some s ∨ none = some s → s.items.length < 2 ^ 32 := by
    rintro s (given | absurd)
    · cases given
      rw [items]
      decide
    · cases absurd
  have documents := (excludedStringIn_documented id (fun _ null => null) (fun _ same => same)
    (some separatedStrings) none few).mpr separated [0x62] (List.cons_ne_nil _ _)
  rw [documents]
  exact ⟨List.cons_ne_nil _ _, by decide +kernel⟩

/-- "b" is looked for as ",b" in the path "b". -/
theorem doubled_comma_read : ¬ ∀ Path, Path ≠ [] →
    excludedStringIn id (setIncludeExcludeStrings (some doubledStrings))
      (setIncludeExcludeStrings none) Path = some (documented id (some doubledStrings) none Path) := by
  intro claim
  have result := claim [0x62] (List.cons_ne_nil _ _)
  revert result
  decide +kernel

end StrArc
