import LtrData.Library.WideText

namespace Txtcnv32

open WideText

abbrev BYTE := BitVec 8

abbrev WCHAR := BitVec 16

def BUFSIZE : Nat := 2048

/-- What MultiByteToWideChar and WideCharToMultiByte make of a text for the two code pages if the
    buffer is large enough, with nothing where they fail. No function stands for code page 0. -/
structure Codec where
  DecodePage : Option (List BYTE → List WCHAR)
  EncodePage : Option (List WCHAR → List BYTE)
  byteswap : Bool

def swab (unit : WCHAR) : WCHAR := unit.extractLsb' 0 8 ++ unit.extractLsb' 8 8

namespace Codec

def decode (c : Codec) (buf : List BYTE) : Option (List WCHAR) :=
  match c.DecodePage with
  | some toWideChar =>
    let tmpbuf := toWideChar buf
    if tmpbuf = [] ∨ BUFSIZE < tmpbuf.length then none else some tmpbuf
  | none => some (units buf)

def encode (c : Codec) (tmpbuf : List WCHAR) : Option (List BYTE) :=
  match c.EncodePage with
  | some toMultiByte =>
    let buf := toMultiByte tmpbuf
    if tmpbuf = [] ∨ buf = [] ∨ BUFSIZE * 2 < buf.length then none else some buf
  | none => some (bytes tmpbuf)

/-- What is written for the bytes of one read, or none for a conversion error. -/
def convert (c : Codec) (buf : List BYTE) : Option (List BYTE) := do
  let tmpbuf ← c.decode buf
  c.encode (if c.byteswap then tmpbuf.map swab else tmpbuf)

end Codec

/-- The loop of the filter for what ReadFile delivers, up to its end or a conversion error. -/
def filterLoop (c : Codec) : List (List BYTE) → List BYTE
  | [] => []
  | buf :: reads =>
    match c.convert buf with
    | none => []
    | some written => written ++ filterLoop c reads

/-- What a single ReadFile may deliver. -/
def IsRead (buf : List BYTE) : Prop := buf ≠ [] ∧ buf.length ≤ BUFSIZE

instance (buf : List BYTE) : Decidable (IsRead buf) := inferInstanceAs (Decidable (_ ∧ _))

/-- A way in which ReadFile delivers an input. -/
structure Delivery (input : List BYTE) where
  reads : List (List BYTE)
  isRead : ∀ buf ∈ reads, IsRead buf
  all : reads.flatten = input

/-- The complete characters of the code page that is decoded. Each of them can be converted on its
    own. -/
structure Characters (c : Codec) where
  Complete : List BYTE → Prop
  isRead : ∀ character, Complete character → IsRead character
  converted : ∀ character, Complete character → ∃ written, c.convert character = some written

/-- All deliveries give the same output, which for a text of complete characters is the converted
    characters one by one. -/
def Independent (c : Codec) (characters : Characters c) (input : List BYTE) : Prop :=
  (∀ d d' : Delivery input, filterLoop c d.reads = filterLoop c d'.reads) ∧
    ∀ text : List (List BYTE), (∀ character ∈ text, characters.Complete character) →
      text.flatten = input → ∀ d : Delivery input,
        filterLoop c d.reads = text.flatMap fun character => (c.convert character).getD []

/-- What is written if the bytes are read one at a time. -/
def bytewise (c : Codec) (input : List BYTE) : List BYTE := filterLoop c (input.map fun byte => [byte])

/-- The filter gets behind these reads. -/
def Passes (c : Codec) (front : List (List BYTE)) : Prop :=
  ∀ buf ∈ front, IsRead buf ∧ ∃ written, c.convert buf = some written

/-- Wherever a read can start, it may as well deliver its bytes one at a time. -/
def Unbroken (c : Codec) (input : List BYTE) : Prop :=
  ∀ (front : List (List BYTE)) (buf back : List BYTE), Passes c front → IsRead buf →
    front.flatten ++ buf ++ back = input →
      bytewise c (buf ++ back) =
        match c.convert buf with
        | none => []
        | some written => written ++ bytewise c back

/-- What a read that takes no more than one character makes is no conversion error, and not empty. -/
def ConvertsSingle (c : Codec) (input : List BYTE) : Prop :=
  match c.DecodePage with
  | none => ∀ low high, ∃ written, written ≠ [] ∧ c.convert [low, high] = some written
  | some _ => ∀ byte ∈ input, ∃ written, written ≠ [] ∧ c.convert [byte] = some written

/-- There is no 16-bit unit, or every part that a read can deliver is converted, to what its bytes
    are converted to. -/
def SingleByte (c : Codec) (input : List BYTE) : Prop :=
  match c.DecodePage with
  | none => input.length ≤ 1
  | some _ => ∀ buf, buf <:+: input → IsRead buf →
      c.convert buf = some (buf.flatMap fun byte => (c.convert [byte]).getD [])

section filterLoop

variable {c : Codec} {input buf back : List BYTE} {front reads : List (List BYTE)}

theorem isRead_byte (byte : BYTE) : IsRead [byte] := ⟨List.cons_ne_nil _ _, Nat.le_of_ble_eq_true rfl⟩

theorem isRead_bytes (back : List BYTE) : ∀ buf ∈ back.map fun byte => [byte], IsRead buf := by
  intro buf mem
  obtain ⟨byte, _, rfl⟩ := List.mem_map.mp mem
  exact isRead_byte byte

theorem flatten_bytes (back : List BYTE) : (back.map fun byte => [byte]).flatten = back := by
  induction back with
  | nil => rfl
  | cons byte back ih => rw [List.map_cons, List.flatten_cons, ih, List.singleton_append]

theorem filterLoop_passes (passes : Passes c front) (reads : List (List BYTE)) :
    filterLoop c (front ++ reads) =
      (front.flatMap fun buf => (c.convert buf).getD []) ++ filterLoop c reads := by
  induction front with
  | nil => rfl
  | cons buf front ih =>
    obtain ⟨first, later⟩ := List.forall_mem_cons.mp passes
    obtain ⟨_, written, converted⟩ := first
    rw [List.cons_append, filterLoop, converted, List.flatMap_cons, converted]
    dsimp only [Option.getD_some]
    rw [ih later, List.append_assoc]

theorem filterLoop_eq_bytewise (unbroken : Unbroken c input) (passes : Passes c front)
    (isRead : ∀ buf ∈ reads, IsRead buf) (all : front.flatten ++ reads.flatten = input) :
    filterLoop c reads = bytewise c reads.flatten := by
  induction reads generalizing front with
  | nil => rfl
  | cons buf reads ih =>
    rw [List.forall_mem_cons] at isRead
    rw [List.flatten_cons, ← List.append_assoc] at all
    have here := unbroken front buf reads.flatten passes isRead.1 all
    rw [List.flatten_cons, here, filterLoop]
    cases converted : c.convert buf with
    | none => rfl
    | some written =>
      have passes' : Passes c (front ++ [buf]) := by
        intro other mem
        rcases List.mem_append.mp mem with mem | mem
        · exact passes other mem
        · rw [List.mem_singleton] at mem
          rw [mem]
          exact ⟨isRead.1, written, converted⟩
      have later := ih passes' isRead.2 (by simpa using all)
      dsimp only
      rw [later]

theorem passes_text (characters : Characters c) {text : List (List BYTE)}
    (complete : ∀ character ∈ text, characters.Complete character) : Passes c text :=
  fun character mem => ⟨characters.isRead character (complete character mem),
    characters.converted character (complete character mem)⟩

theorem independent_iff_unbroken (c : Codec) (characters : Characters c) (input : List BYTE) :
    Independent c characters input ↔ Unbroken c input := by
  constructor
  · intro independent front buf back passes isRead all
    have whole : ∀ read ∈ front ++ buf :: back.map fun byte => [byte], IsRead read := by
      intro read mem
      rcases List.mem_append.mp mem with mem | mem
      · exact (passes read mem).1
      · rcases List.mem_cons.mp mem with rfl | mem
        · exact isRead
        · exact isRead_bytes back read mem
    have cut : ∀ read ∈ front ++ (buf ++ back).map fun byte => [byte], IsRead read := by
      intro read mem
      rcases List.mem_append.mp mem with mem | mem
      · exact (passes read mem).1
      · exact isRead_bytes (buf ++ back) read mem
    have same := independent.1
      ⟨_, cut, by rw [List.flatten_append, flatten_bytes, ← List.append_assoc, all]⟩
      ⟨_, whole, by
        rw [List.flatten_append, List.flatten_cons, flatten_bytes, ← List.append_assoc, all]⟩
    dsimp only at same
    rw [filterLoop_passes passes, filterLoop_passes passes, List.append_cancel_left_eq] at same
    rw [filterLoop] at same
    exact same
  · intro unbroken
    have none_ : Passes c [] := by simp [Passes]
    have bytes_ (d : Delivery input) : filterLoop c d.reads = bytewise c input := by
      have same := filterLoop_eq_bytewise unbroken none_ d.isRead d.all
      rw [d.all] at same
      exact same
    refine ⟨fun d d' => (bytes_ d).trans (bytes_ d').symm, fun text complete all d => ?_⟩
    have passes := passes_text characters complete
    have alone := filterLoop_passes passes []
    rw [List.append_nil, filterLoop, List.append_nil] at alone
    rw [← alone, bytes_ d]
    exact (bytes_ ⟨text, fun buf mem => (passes buf mem).1, all⟩).symm

theorem bytewise_cons (byte : BYTE) (back : List BYTE) : bytewise c (byte :: back) =
    match c.convert [byte] with
    | none => []
    | some written => written ++ bytewise c back := by
  rw [bytewise, List.map_cons, filterLoop]
  rfl

/-- Bytes that are converted one by one come before what is behind them. -/
theorem bytewise_append (converts : ∀ byte ∈ buf, ∃ written, c.convert [byte] = some written)
    (back : List BYTE) : bytewise c (buf ++ back) =
      (buf.flatMap fun byte => (c.convert [byte]).getD []) ++ bytewise c back := by
  induction buf with
  | nil => rfl
  | cons byte buf ih =>
    rw [List.forall_mem_cons] at converts
    obtain ⟨written, converted⟩ := converts.1
    rw [List.cons_append, bytewise_cons, converted, List.flatMap_cons, converted]
    dsimp only [Option.getD_some]
    rw [ih converts.2, List.append_assoc]

theorem bytewise_units (raw : c.DecodePage = none) (input : List BYTE) : bytewise c input = [] := by
  induction input with
  | nil => rfl
  | cons byte back ih =>
    rw [bytewise_cons]
    cases converted : c.convert [byte] with
    | none => rfl
    | some written =>
      have empty : written = [] := by
        unfold Codec.convert Codec.decode Codec.encode at converted
        rw [raw] at converted
        cases page : c.EncodePage with
        | none =>
          rw [page] at converted
          cases swaps : c.byteswap <;> rw [swaps] at converted <;>
            exact (Option.some.inj converted).symm
        | some toMultiByte =>
          rw [page] at converted
          cases swaps : c.byteswap <;> rw [swaps] at converted <;>
            simp [units] at converted
      dsimp only
      rw [empty, ih, List.append_nil]

theorem unbroken_units (raw : c.DecodePage = none)
    (converts : ∀ low high, ∃ written, written ≠ [] ∧ c.convert [low, high] = some written) :
    Unbroken c input ↔ input.length ≤ 1 := by
  constructor
  · intro unbroken
    match input with
    | [] => exact Nat.zero_le 1
    | [_] => exact Nat.le_refl 1
    | low :: high :: back =>
      obtain ⟨written, some_, converted⟩ := converts low high
      have here := unbroken [] [low, high] back (by simp [Passes])
        ⟨List.cons_ne_nil _ _, Nat.le_of_ble_eq_true rfl⟩ rfl
      rw [bytewise_units raw, converted] at here
      exact absurd (List.append_eq_nil_iff.mp here.symm).1 some_
  · intro short front buf back _ isRead all
    have length := congrArg List.length all
    rw [List.length_append, List.length_append] at length
    have positive : 0 < buf.length := List.length_pos_iff.mpr isRead.1
    match buf with
    | [] => exact absurd rfl isRead.1
    | [byte] => exact bytewise_cons byte back
    | _ :: _ :: _ =>
      rw [List.length_cons, List.length_cons] at length
      omega

theorem unbroken_bytes
    (converts : ∀ byte ∈ input, ∃ written, written ≠ [] ∧ c.convert [byte] = some written) :
    Unbroken c input ↔ ∀ buf, buf <:+: input → IsRead buf →
      c.convert buf = some (buf.flatMap fun byte => (c.convert [byte]).getD []) := by
  have single {buf : List BYTE} (part : buf <:+: input) :
      ∀ byte ∈ buf, ∃ written, c.convert [byte] = some written := by
    intro byte mem
    obtain ⟨written, _, converted⟩ := converts byte (part.subset mem)
    exact ⟨written, converted⟩
  constructor
  · intro unbroken buf part isRead
    obtain ⟨front, back, all⟩ := part
    have passes : Passes c (front.map fun byte => [byte]) := by
      intro read mem
      obtain ⟨byte, inside, rfl⟩ := List.mem_map.mp mem
      have within : byte ∈ input := by
        rw [← all, List.append_assoc]
        exact List.mem_append_left _ inside
      obtain ⟨written, _, converted⟩ := converts byte within
      exact ⟨isRead_byte byte, written, converted⟩
    have here := unbroken _ buf back passes isRead (by rw [flatten_bytes]; exact all)
    rw [bytewise_append (single ⟨front, back, all⟩)] at here
    cases converted : c.convert buf with
    | none =>
      -- the first byte of the part is converted to something
      rw [converted] at here
      obtain ⟨byte, rest, rfl⟩ := List.exists_cons_of_ne_nil isRead.1
      obtain ⟨written, some_, first⟩ := converts byte (by rw [← all]; simp)
      rw [List.flatMap_cons, first] at here
      simp [some_] at here
    | some written =>
      rw [converted] at here
      exact congrArg some (List.append_cancel_right here).symm
  · intro parts front buf back _ isRead all
    have part : buf <:+: input := ⟨front.flatten, back, all⟩
    rw [bytewise_append (single part), parts buf part isRead]

theorem unbroken_single (converts : ConvertsSingle c input) :
    Unbroken c input ↔ SingleByte c input := by
  unfold ConvertsSingle at converts
  unfold SingleByte
  cases page : c.DecodePage with
  | none =>
    rw [page] at converts
    exact unbroken_units page converts
  | some toWideChar =>
    rw [page] at converts
    exact unbroken_bytes converts

end filterLoop

def copying : Codec := ⟨none, none, false⟩

def copiedUnits : Characters copying where
  Complete character := character.length = 2
  isRead character length := by
    refine ⟨List.ne_nil_of_length_pos (by omega), ?_⟩
    rw [length]
    decide
  converted _ _ := ⟨_, rfl⟩

end Txtcnv32
