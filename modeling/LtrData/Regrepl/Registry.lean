import LtrData.Library.TreeWalk
import LtrData.Regrepl.Values
import Mathlib.Logic.Function.Basic

namespace Regrepl

abbrev Path := List (List CHAR)

def valueNameSize : Nat := 260

def keyPathSize : Nat := 65535

structure RegValue where
  name : List CHAR
  dwType : ValueType
  data : List CHAR
deriving DecidableEq

/-- The keys from the one the user has chosen on. They stay as they are during a run. -/
structure Keys where
  subkeys : Path → List (List CHAR)
  distinct : ∀ path, (subkeys path).Nodup
  clean : ∀ path, ∀ name ∈ subkeys path, ∀ c ∈ name, c ≠ 0
  depth : Nat
  bounded : ∀ path, depth ≤ path.length → subkeys path = []

/-- How the user answers a warning. -/
inductive Answer
  | yes
  | no
  | cancel
deriving DecidableEq

/-- The texts, the keys, and what comes from outside while the program runs, by a count of the calls
    made so far: a call to the registry that fails, an answer, a click on Cancel. -/
structure Config where
  t : Texts
  wide : Option (WideTexts t)
  keys : Keys
  fails : Nat → Bool
  answer : Nat → Answer
  cancels : Nat → Bool

/-- The values of the keys in the order of their enumeration, and the global variables. The texts
    shown for the current key, the warnings with the key they name, and the calls of RegSetValueEx
    that have not failed are kept for what is said about runs. -/
structure Session where
  values : Path → List RegValue
  buffers : Buffers
  cKeyPath : Cells CHAR
  bCancel : Bool
  bSilent : Bool
  dwReplaceCounter : BitVec 32
  dwReplaceErrorCounter : BitVec 32
  dwErrorCounter : BitVec 32
  shown : List (List CHAR)
  warnings : List (List CHAR × List CHAR)
  sets : List (Path × RegValue)
  clock : Nat

namespace Session

def tick (s : Session) : Session := { s with clock := s.clock + 1 }

/-- The string in `cKeyPath`. -/
def keyText (s : Session) : List CHAR := s.cKeyPath.textAt keyPathSize 0

def displayWarning (c : Config) (lpMsg : List CHAR) (s : Session) : Session :=
  if s.bSilent then s
  else
    let asked := { s.tick with warnings := s.warnings ++ [(lpMsg, s.keyText)] }
    match c.answer s.clock with
    | .yes => asked
    | .no => { asked with bSilent := true }
    | .cancel => { asked with bCancel := true }

def doEvents (c : Config) (s : Session) : Session :=
  { s.tick with bCancel := s.bCancel || c.cancels s.clock }

def keyError (c : Config) (lpMsg : List CHAR) (s : Session) : Session :=
  let s := s.displayWarning c lpMsg
  { s with dwErrorCounter := s.dwErrorCounter + 1 }

end Session

/-! ### The values of a key -/

/-- RegSetValueEx: a value of that name is overwritten where it stands. -/
def setValue (values : List RegValue) (value : RegValue) : List RegValue :=
  if value.name ∈ values.map RegValue.name then
    values.map fun old => if old.name = value.name then value else old
  else values ++ [value]

def Session.regSetValueEx (c : Config) (path : Path) (value : RegValue) (s : Session) : Session :=
  if c.fails s.clock then
    let s := s.tick.displayWarning c (chars "Error saving value in key")
    { s with dwReplaceErrorCounter := s.dwReplaceErrorCounter + 1 }
  else
    { s.tick with
      values := Function.update s.values path (setValue (s.values path) value)
      dwReplaceCounter := s.dwReplaceCounter + 1
      sets := s.sets ++ [(path, value)] }

def Session.call (c : Config) (path : Path) (s : Session) : Call → Session
  | .regSetValueEx cValueName dwType lpData _ => s.regSetValueEx c path ⟨cValueName, dwType, lpData⟩
  | .tooBig => s

/-- RegEnumValue hands out a value that fits the buffers. -/
inductive EnumeratedValue
  | noMoreItems
  | failed
  | value (value : Value)

def Session.regEnumValue (c : Config) (path : Path) (dwIndex : Nat) (s : Session) : EnumeratedValue :=
  if c.fails s.clock then .failed
  else
    match (s.values path)[dwIndex]? with
    | none => .noMoreItems
    | some v =>
      if fits : v.name.length < valueNameSize ∧ v.data.length ≤ valueDataSize then
        .value ⟨v.name, v.dwType, v.data, fits.2⟩
      else .failed

/-- ReplaceInString for a value that is longer than the search text. The model stops where it has
    written or read outside of a buffer. -/
def Session.replace (c : Config) (path : Path) (value : Value) (s : Session) : Option Session :=
  match doValue c.t c.wide s.keyText value s.buffers with
  | none => none
  | some outcome =>
    if outcome.ended = .finished then
      some (outcome.calls.foldl (Session.call c path) { s with buffers := outcome.buffers })
    else none

/-- The first loop of DoSubKey, and whether it has returned from the function. -/
def valuesLoop (c : Config) (path : Path) : Nat → Nat → Session → Option (Session × Bool)
  | 0, _, _ => none
  | fuel + 1, dwIndex, s =>
    match s.regEnumValue c path dwIndex with
    | .noMoreItems => some (s.tick, false)
    | .failed =>
      let s := s.tick.doEvents c
      if s.bCancel then some (s, true)
      else some (s.keyError c (chars "Error enumerating values in key"), false)
    | .value value =>
      let s := s.tick.doEvents c
      if s.bCancel then some (s, true)
      else
        match s.replace c path value with
        | none => none
        | some s => valuesLoop c path fuel (dwIndex + 1) s

/-! ### The keys below a key -/

/-- _snprintf writes so many characters at most, and no NUL behind as many. -/
def snprintf (m : Cells CHAR) (place n : Nat) (text : List CHAR) : Cells CHAR :=
  m.write place ((text ++ [0]).take n)

/-- The name of a subkey behind the path in `cKeyPath`. -/
def appendKey (m : Cells CHAR) (lpszCurrentKey : Nat) (name : List CHAR) : Cells CHAR :=
  if keyPathSize - lpszCurrentKey > 4 then
    (snprintf m lpszCurrentKey (keyPathSize - lpszCurrentKey - 3) (chars "\\" ++ name)).write
      (keyPathSize - 1) [0]
  else m

inductive EnumeratedKey
  | noMoreItems
  | failed
  | key (name : List CHAR)

def Session.regEnumKey (c : Config) (path : Path) (dwIndex : Nat) (s : Session) : EnumeratedKey :=
  if c.fails s.clock then .failed
  else
    match (c.keys.subkeys path)[dwIndex]? with
    | none => .noMoreItems
    | some name => if name.length < valueNameSize then .key name else .failed

/-- The second loop of DoSubKey, with what DoSubKey does for a subkey. -/
def subKeysLoop (c : Config) (doSubKey : Path → Nat → Session → Option Session) (path : Path)
    (lpszCurrentKey : Nat) : Nat → Nat → Session → Option Session
  | 0, _, _ => none
  | fuel + 1, dwIndex, s =>
    match s.regEnumKey c path dwIndex with
    | .noMoreItems => some s.tick
    | .failed =>
      let s := s.tick.doEvents c
      if s.bCancel then some s
      else some (s.displayWarning c (chars "Cannot enumerate subkeys under key"))
    | .key name =>
      let s := s.tick.doEvents c
      if s.bCancel then some s
      else
        let s := { s with cKeyPath := appendKey s.cKeyPath lpszCurrentKey name }
        if c.fails s.clock then
          let s := s.tick.keyError c (chars "Cannot open key")
          subKeysLoop c doSubKey path lpszCurrentKey fuel (dwIndex + 1)
            { s with cKeyPath := s.cKeyPath.write lpszCurrentKey [0] }
        else
          let place := lpszCurrentKey + strlen s.cKeyPath lpszCurrentKey
          match doSubKey (path ++ [name]) place s.tick with
          | none => none
          | some s =>
            let s := { s with cKeyPath := s.cKeyPath.write lpszCurrentKey [0] }
            if s.bCancel then some s
            else subKeysLoop c doSubKey path lpszCurrentKey fuel (dwIndex + 1) s

/-- DoSubKey outside of Win32s, for so many levels of keys at most. -/
def doSubKey (c : Config) : Nat → Path → Nat → Session → Option Session
  | 0, _, _, _ => none
  | levels + 1, path, lpszCurrentKey, s =>
    let s := { s with shown := s.shown ++ [s.keyText] }
    match valuesLoop c path ((s.values path).length + 1) 0 s with
    | none => none
    | some (s, true) => some s
    | some (s, false) =>
      subKeysLoop c (doSubKey c levels) path lpszCurrentKey ((c.keys.subkeys path).length + 1) 0 s

/-- What a click on OK starts with. The buffers are as an earlier run has left them. -/
def start (values : Path → List RegValue) (buffers : Buffers) (cKeyPath : Cells CHAR) : Session where
  values := values
  buffers := buffers
  cKeyPath := cKeyPath.write 0 [0]
  bCancel := false
  bSilent := false
  dwReplaceCounter := 0
  dwReplaceErrorCounter := 0
  dwErrorCounter := 0
  shown := []
  warnings := []
  sets := []
  clock := 0

def replaceInRegistry (c : Config) (values : Path → List RegValue) (buffers : Buffers)
    (cKeyPath : Cells CHAR) : Option Session :=
  doSubKey c (c.keys.depth + 1) [] 0 (start values buffers cKeyPath)

end Regrepl
