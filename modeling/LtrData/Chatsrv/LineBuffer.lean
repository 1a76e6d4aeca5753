import LtrData.Chatsrv.ClientManager
import LtrData.Library.CStrings
import Mathlib.Data.BitVec
import Mathlib.Data.List.TakeWhile

namespace Chatsrv.LineBuffer

abbrev BYTE := BitVec 8

abbrev DWORD := BitVec 32

def ascii (text : String) : List BYTE := text.toList.map fun c => BitVec.ofNat 8 c.toNat

/-- The stream has what each read of one byte gets, which is none if it fails. `written` has every
    place of buf that is written, and `broadcasts` what buf holds at each BroadcastMsg. -/
structure State where
  buf : Cells BYTE
  stream : List (Option BYTE)
  written : List Nat
  broadcasts : List (List BYTE)

namespace State

def put (s : State) (place : Nat) (bytes : List BYTE) : State :=
  { s with buf := s.buf.write place bytes, written := s.written ++ List.range' place bytes.length }

/-- A text of sizeof buf bytes is left without its NUL, and of a longer one the end is lost. -/
def snprintf (s : State) (text : List BYTE) : State := s.put 0 ((text ++ [0]).take MAX_PATH)

def broadcastMsg (s : State) : State :=
  { s with broadcasts := s.broadcasts ++ [s.buf.read 0 MAX_PATH] }

/-- There is a NUL at the end given, so the text ends there or before. -/
def strcat (s : State) (last : Nat) (text : List BYTE) : State :=
  s.put (s.buf.textAt (last + 1) 0).length (text ++ [0])

end State

/-- The loop of LineRecv, which goes on while dwLen is below the limit. -/
def recvLoop (pBuf limit : Nat) : Nat → List (Option BYTE) → State → Nat × State
  | dwLen, [], s => (dwLen, { s with stream := [] })
  | dwLen, result :: rest, s =>
    if dwLen < limit then
      match result with
      | none => (dwLen, { s with stream := rest })
      | some c =>
        let s := s.put (pBuf + dwLen) [c]
        if c = 13 then recvLoop pBuf limit dwLen rest s
        else if c = 10 then (dwLen, { s with stream := rest })
        else recvLoop pBuf limit (dwLen + 1) rest s
    else (dwLen, { s with stream := result :: rest })

def LineRecv (pBuf : Nat) (dwBufSize : DWORD) (s : State) : Nat × State :=
  let (dwLen, s) := recvLoop pBuf (dwBufSize - 2).toNat 0 s.stream s
  (dwLen, s.put (pBuf + dwLen) [0])

def lower (c : BYTE) : BYTE := if 65 ≤ c ∧ c ≤ 90 then c + 32 else c

/-- What ParseCommand returns. The lines it sends do not go through buf. -/
def parseCommand (cmd : List BYTE) : Bool := cmd.map lower ≠ ascii "/quit"

/-- The loop of Server. It gives none where the bound on the rounds is reached. -/
def chat (name : List BYTE) : Nat → State → Option State
  | 0, _ => none
  | fuel + 1, s =>
    let bufptr := name.length + 2
    let s := s.snprintf (name ++ ascii "> ")
    let (n, s) := LineRecv bufptr (BitVec.ofNat 32 MAX_PATH - BitVec.ofNat 32 bufptr - 1) s
    if n = 0 then some s
    else if s.buf bufptr = 47 then
      if parseCommand (s.buf.textAt (bufptr + n + 1) bufptr) then chat name fuel s else some s
    else chat name fuel ((s.strcat (bufptr + n) (ascii "\n")).broadcastMsg)

/-- Server, where ApplyName returns false for the names refused. -/
def Server (refused : List BYTE → Bool) (buf : Cells BYTE) (stream : List (Option BYTE)) :
    Option State :=
  let (n, s) := LineRecv 0 (BitVec.ofNat 32 MAX_PATH) ⟨buf, stream, [], []⟩
  if n = 0 then some s
  else
    let name := s.buf.textAt MAX_PATH 0
    if refused name then some s
    else
      let s := ((s.snprintf (name ++ ascii " joined the chat.\n")).put (MAX_PATH - 1) [0]).broadcastMsg
      (chat name (s.stream.length + 1) s).map fun s =>
        ((s.snprintf (name ++ ascii " left the chat.\n")).put (MAX_PATH - 1) [0]).broadcastMsg

/-- Nothing is written outside buf, and what is broadcast ends in it. -/
structure Sound (s : State) : Prop where
  inside : ∀ i ∈ s.written, i < MAX_PATH
  ends : ∀ bytes ∈ s.broadcasts, 0 ∈ bytes

/-- What is received of a line when at most limit characters fit, and the rest of the stream. -/
def takeLine (limit : Nat) : List (Option BYTE) → List BYTE × List (Option BYTE)
  | [] => ([], [])
  | none :: rest => if limit = 0 then ([], none :: rest) else ([], rest)
  | some c :: rest =>
    if limit = 0 then ([], some c :: rest)
    else if c = 13 then takeLine limit rest
    else if c = 10 then ([], rest)
    else (c :: (takeLine (limit - 1) rest).1, (takeLine (limit - 1) rest).2)

/-- The next line, without the carriage returns, and what follows it. -/
def line : List (Option BYTE) → List BYTE × List (Option BYTE)
  | [] => ([], [])
  | none :: rest => ([], rest)
  | some c :: rest =>
    if c = 13 then line rest
    else if c = 10 then ([], rest)
    else (c :: (line rest).1, (line rest).2)

/-- Up to the first empty line, every line is a slash or a NUL and nothing else. -/
inductive OnlyMarks : List (Option BYTE) → Prop
  | last {stream} (empty : (line stream).1 = []) : OnlyMarks stream
  | mark {stream c} (short : (line stream).1 = [c]) (either : c = 47 ∨ c = 0)
      (later : OnlyMarks (line stream).2) : OnlyMarks stream

/-- The lengths of the name that leave room for what follows. -/
def Fits (name : List BYTE) (stream : List (Option BYTE)) : Prop :=
  name.length ≤ 255 ∨ (name.length = 256 ∧ OnlyMarks stream) ∨
    (name.length = 257 ∧ (line stream).1 = [])

/-- What LineRecv does to the state when it receives a text. -/
structure Received (s : State) (pBuf : Nat) (text : List BYTE) (rest : List (Option BYTE))
    (s' : State) : Prop where
  stored : s'.buf.read pBuf (text.length + 1) = text ++ [0]
  before : ∀ i < pBuf, s'.buf i = s.buf i
  stream : s'.stream = rest
  written : ∃ places, s'.written = s.written ++ places ∧ pBuf + text.length ∈ places ∧
    ∀ i ∈ places, i ≤ pBuf + text.length
  broadcasts : s'.broadcasts = s.broadcasts

theorem nothing_written (s : State) (last : Nat) :
    ∃ places, s.written = s.written ++ places ∧ ∀ i ∈ places, i ≤ last :=
  ⟨[], (List.append_nil _).symm, fun _ mem => absurd mem List.not_mem_nil⟩

theorem recvLoop_spec (pBuf limit dwLen : Nat) (stream : List (Option BYTE)) (s : State)
    (below : dwLen ≤ limit) :
    ∃ s', recvLoop pBuf limit dwLen stream s =
        (dwLen + (takeLine (limit - dwLen) stream).1.length, s') ∧
      s'.buf.read (pBuf + dwLen) (takeLine (limit - dwLen) stream).1.length =
        (takeLine (limit - dwLen) stream).1 ∧
      (∀ i < pBuf + dwLen, s'.buf i = s.buf i) ∧
      s'.stream = (takeLine (limit - dwLen) stream).2 ∧
      (∃ places, s'.written = s.written ++ places ∧
        ∀ i ∈ places, i ≤ pBuf + dwLen + (takeLine (limit - dwLen) stream).1.length) ∧
      s'.broadcasts = s.broadcasts := by
  induction stream generalizing dwLen s with
  | nil =>
    exact ⟨{ s with stream := [] }, rfl, rfl, fun _ _ => rfl, rfl, nothing_written s _, rfl⟩
  | cons result rest ih =>
    by_cases more : dwLen < limit
    · have room : ¬ limit - dwLen = 0 := by omega
      cases result with
      | none =>
        simp only [recvLoop, if_pos more, takeLine, if_neg room]
        exact ⟨{ s with stream := rest }, rfl, rfl, fun _ _ => rfl, rfl, nothing_written s _, rfl⟩
      | some c =>
        simp only [recvLoop, if_pos more, takeLine, if_neg room]
        have cell (i : Nat) (front : i < pBuf + dwLen) :
            (s.put (pBuf + dwLen) [c]).buf i = s.buf i := by
          simp [State.put, Cells.write, front]
        by_cases cr : c = 13
        · simp only [if_pos cr]
          obtain ⟨s', run, stored, before, left, ⟨places, written, within⟩, same⟩ :=
            ih dwLen (s.put (pBuf + dwLen) [c]) below
          refine ⟨s', run, stored, fun i front => (before i front).trans (cell i front), left,
            ⟨(pBuf + dwLen) :: places, by simp [written, State.put], ?_⟩, same⟩
          intro i mem
          rcases List.mem_cons.mp mem with rfl | mem
          · omega
          · exact within i mem
        · by_cases lf : c = 10
          · simp only [if_neg cr, if_pos lf]
            refine ⟨_, rfl, rfl, cell, rfl, ⟨[pBuf + dwLen], by simp [State.put], ?_⟩, rfl⟩
            intro i mem
            rw [List.mem_singleton.mp mem]
            exact Nat.le_refl _
          · simp only [if_neg cr, if_neg lf]
            obtain ⟨s', run, stored, before, left, ⟨places, written, within⟩, same⟩ :=
              ih (dwLen + 1) (s.put (pBuf + dwLen) [c]) more
            rw [← Nat.add_assoc] at stored before within
            rw [show limit - (dwLen + 1) = limit - dwLen - 1 by omega] at run stored left within
            have first : s'.buf (pBuf + dwLen) = c := by
              rw [before _ (Nat.lt_succ_self _)]
              simp [State.put, Cells.write]
            refine ⟨s', ?_, ?_, fun i front => ?_, left,
              ⟨(pBuf + dwLen) :: places, by simp [written, State.put], ?_⟩, same⟩
            · rw [run, List.length_cons, Nat.add_assoc, Nat.add_comm 1]
            · rw [List.length_cons, Cells.read, first, stored]
            · exact (before i (Nat.lt_succ_of_lt front)).trans (cell i front)
            · intro i mem
              rw [List.length_cons]
              rcases List.mem_cons.mp mem with rfl | mem
              · omega
              · have bound := within i mem
                omega
    · have full : limit - dwLen = 0 := by omega
      have none_ : takeLine (limit - dwLen) (result :: rest) = ([], result :: rest) := by
        cases result <;> rw [takeLine, if_pos full]
      simp only [recvLoop, if_neg more, none_]
      exact ⟨_, rfl, rfl, fun _ _ => rfl, rfl, nothing_written s _, rfl⟩

theorem LineRecv_spec (pBuf : Nat) (dwBufSize : DWORD) (s : State) :
    ∃ s', LineRecv pBuf dwBufSize s = ((takeLine (dwBufSize - 2).toNat s.stream).1.length, s') ∧
      Received s pBuf (takeLine (dwBufSize - 2).toNat s.stream).1
        (takeLine (dwBufSize - 2).toNat s.stream).2 s' := by
  obtain ⟨s', run, stored, before, left, ⟨places, written, within⟩, same⟩ :=
    recvLoop_spec pBuf (dwBufSize - 2).toNat 0 s.stream s (Nat.zero_le _)
  simp only [Nat.sub_zero, Nat.zero_add, Nat.add_zero] at run stored before left within
  rw [LineRecv, run]
  refine ⟨_, rfl, ⟨?_, fun i front => ?_, left,
    ⟨places ++ [pBuf + (takeLine (dwBufSize - 2).toNat s.stream).1.length], ?_, ?_, ?_⟩, same⟩⟩
  · have appended := Cells.read_write_append s'.buf [0] pBuf
      (takeLine (dwBufSize - 2).toNat s.stream).1.length
    rw [stored] at appended
    exact appended
  · have front_ : i < pBuf + (takeLine (dwBufSize - 2).toNat s.stream).1.length := by omega
    rw [← before i front]
    exact if_pos front_
  · rw [State.put, written, ← List.append_assoc]
    rfl
  · exact List.mem_append_right _ (List.mem_singleton_self _)
  · intro i mem
    rcases List.mem_append.mp mem with mem | mem
    · exact within i mem
    · rw [List.mem_singleton.mp mem]

theorem takeLine_length (limit : Nat) (stream : List (Option BYTE)) :
    (takeLine limit stream).1.length ≤ limit ∧
      (takeLine limit stream).1.length + (takeLine limit stream).2.length ≤ stream.length := by
  induction stream generalizing limit with
  | nil => exact ⟨Nat.zero_le _, Nat.le_refl _⟩
  | cons result rest ih =>
    cases result with
    | none =>
      rw [takeLine]
      split <;> simp
    | some c =>
      rw [takeLine]
      split
      · simp
      · split
        · have ⟨short, left⟩ := ih limit
          exact ⟨short, Nat.le_succ_of_le left⟩
        · split
          · simp
          · have ⟨short, left⟩ := ih (limit - 1)
            simp only [List.length_cons]
            omega

/-- Of a line that is shorter than the limit nothing is left. -/
theorem takeLine_line {limit : Nat} {stream : List (Option BYTE)}
    (short : (takeLine limit stream).1.length < limit) : takeLine limit stream = line stream := by
  induction stream generalizing limit with
  | nil => rfl
  | cons result rest ih =>
    have room : ¬ limit = 0 := by omega
    cases result with
    | none => rw [takeLine, if_neg room, line]
    | some c =>
      rw [takeLine, if_neg room] at short ⊢
      rw [line]
      by_cases cr : c = 13
      · rw [if_pos cr] at short
        rw [if_pos cr, if_pos cr, ih short]
      · by_cases lf : c = 10
        · rw [if_neg cr, if_pos lf, if_neg cr, if_pos lf]
        · rw [if_neg cr, if_neg lf, List.length_cons] at short
          rw [if_neg cr, if_neg lf, if_neg cr, if_neg lf, ih (Nat.lt_sub_of_add_lt short)]

theorem line_length_le {limit : Nat} {stream : List (Option BYTE)}
    (full : limit ≤ (takeLine limit stream).1.length) : limit ≤ (line stream).1.length := by
  induction stream generalizing limit with
  | nil => exact full
  | cons result rest ih =>
    by_cases room : limit = 0
    · omega
    · cases result with
      | none =>
        rw [takeLine, if_neg room] at full
        exact full
      | some c =>
        rw [takeLine, if_neg room] at full
        rw [line]
        by_cases cr : c = 13
        · rw [if_pos cr] at full ⊢
          exact ih full
        · by_cases lf : c = 10
          · rw [if_neg cr, if_pos lf] at full ⊢
            exact full
          · rw [if_neg cr, if_neg lf, List.length_cons] at full ⊢
            have longer := @ih (limit - 1) (by omega)
            omega

theorem takeLine_of_line {limit : Nat} {stream : List (Option BYTE)}
    (short : (line stream).1.length < limit) : takeLine limit stream = line stream := by
  apply takeLine_line
  by_contra full
  have longer := line_length_le (Nat.le_of_not_lt full)
  omega

section Logs

variable {s s' : State}

theorem sound_put {place : Nat} {bytes : List BYTE} (some_ : bytes ≠ []) :
    Sound (s.put place bytes) ↔ Sound s ∧ place + bytes.length ≤ MAX_PATH := by
  have positive := List.length_pos_iff.mpr some_
  constructor
  · intro sound
    refine ⟨⟨fun i mem => sound.inside i (List.mem_append_left _ mem), sound.ends⟩, ?_⟩
    have last := sound.inside (place + bytes.length - 1)
      (List.mem_append_right _ (by simp [List.mem_range'_1]; omega))
    omega
  · intro facts
    rcases facts with ⟨sound, room⟩
    refine ⟨fun i mem => ?_, sound.ends⟩
    rcases List.mem_append.mp mem with mem | mem
    · exact sound.inside i mem
    · have bound := (List.mem_range'_1.mp mem).2
      omega

theorem sound_broadcastMsg :
    Sound s.broadcastMsg ↔ Sound s ∧ 0 ∈ s.buf.read 0 MAX_PATH := by
  constructor
  · intro sound
    exact ⟨⟨sound.inside, fun bytes mem => sound.ends bytes (List.mem_append_left _ mem)⟩,
      sound.ends _ (List.mem_append_right _ (List.mem_singleton_self _))⟩
  · intro facts
    rcases facts with ⟨sound, ends⟩
    refine ⟨sound.inside, fun bytes mem => ?_⟩
    rcases List.mem_append.mp mem with mem | mem
    · exact sound.ends bytes mem
    · rw [List.mem_singleton.mp mem]
      exact ends

theorem sound_snprintf (text : List BYTE) : Sound (s.snprintf text) ↔ Sound s := by
  have some_ : (text ++ [0]).take MAX_PATH ≠ [] := by
    simp [List.take_eq_nil_iff, MAX_PATH]
  rw [State.snprintf, sound_put some_]
  apply and_iff_left
  rw [Nat.zero_add]
  exact List.length_take_le _ _

variable {pBuf : Nat} {text : List BYTE} {rest : List (Option BYTE)}

theorem Received.sound_iff (received : Received s pBuf text rest s') :
    Sound s' ↔ Sound s ∧ pBuf + text.length < MAX_PATH := by
  obtain ⟨places, written, last, within⟩ := received.written
  constructor
  · intro sound
    refine ⟨⟨fun i mem => sound.inside i ?_, fun bytes mem => sound.ends bytes ?_⟩,
      sound.inside _ ?_⟩
    · rw [written]
      exact List.mem_append_left _ mem
    · rw [received.broadcasts]
      exact mem
    · rw [written]
      exact List.mem_append_right _ last
  · intro facts
    rcases facts with ⟨sound, room⟩
    refine ⟨fun i mem => ?_, fun bytes mem => sound.ends bytes ?_⟩
    · rw [written] at mem
      rcases List.mem_append.mp mem with mem | mem
      · exact sound.inside i mem
      · have bound := within i mem
        omega
    · rw [received.broadcasts] at mem
      exact mem

theorem Received.nul (received : Received s pBuf text rest s') :
    s'.buf (pBuf + text.length) = 0 := by
  have stored := received.stored
  rw [Cells.read_add] at stored
  have last := (List.append_inj stored (Cells.length_read _ _ _)).2
  simpa [Cells.read] using last

theorem Received.first {c : BYTE} {tail : List BYTE}
    (received : Received s pBuf (c :: tail) rest s') : s'.buf pBuf = c := by
  have stored := received.stored
  simp only [List.length_cons, Cells.read, List.cons_append, List.cons.injEq] at stored
  exact stored.1

end Logs

theorem sound_strcat {s : State} {last : Nat} {text : List BYTE} :
    Sound (s.strcat last text) ↔
      Sound s ∧ (s.buf.textAt (last + 1) 0).length + (text.length + 1) ≤ MAX_PATH := by
  rw [State.strcat, sound_put (by simp), List.length_append, List.length_singleton]

/-- Behind a NUL that is inside buf a line feed still fits, and the string ends inside buf. -/
theorem sound_appended {s : State} {last : Nat} (nul : s.buf last = 0) (inside : last + 2 < MAX_PATH) :
    Sound (s.strcat last (ascii "\n")).broadcastMsg ↔ Sound s := by
  have terminated : 0 ∈ s.buf.read 0 (last + 1 - 0) :=
    Cells.mem_read.mpr ⟨last, Nat.lt_succ_self _, by rw [Nat.zero_add, nul]⟩
  have short := (Cells.holds_textAt terminated).inside
  have length : (ascii "\n").length = 1 := by decide
  rw [sound_broadcastMsg, sound_strcat, length]
  have ends : 0 ∈ (s.strcat last (ascii "\n")).buf.read 0 MAX_PATH := by
    refine Cells.mem_read.mpr ⟨(s.buf.textAt (last + 1) 0).length + 1, by omega, ?_⟩
    have above : ¬ (s.buf.textAt (last + 1) 0).length + 1 < (s.buf.textAt (last + 1) 0).length := by
      omega
    rw [Nat.zero_add]
    change s.buf.write _ (ascii "\n" ++ [0]) _ = 0
    rw [Cells.write, if_neg above, Nat.add_sub_cancel_left]
    rfl
  constructor
  · intro facts
    exact facts.1.1
  · intro sound
    exact ⟨⟨sound, by omega⟩, ends⟩

section Chat

/-- The characters LineRecv goes up to behind the name. -/
def room (name : List BYTE) : Nat :=
  (BitVec.ofNat 32 MAX_PATH - BitVec.ofNat 32 (name.length + 2) - 1 - 2).toNat

variable {name : List BYTE}

theorem room_short (short : name.length ≤ 255) : room name = 255 - name.length := by
  simp only [room, MAX_PATH, BitVec.toNat_sub, BitVec.toNat_ofNat, BitVec.ofNat_eq_ofNat]
  omega

/-- From 256 on the subtraction in LineRecv wraps around. -/
theorem room_long (length : name.length = 256 ∨ name.length = 257) : 2 ^ 32 - 2 ≤ room name := by
  rcases length with length | length <;> simp [room, length, MAX_PATH]

theorem chat_round (name : List BYTE) (fuel : Nat) (s : State) :
    ∃ s', Received (s.snprintf (name ++ ascii "> ")) (name.length + 2)
        (takeLine (room name) s.stream).1 (takeLine (room name) s.stream).2 s' ∧
      chat name (fuel + 1) s =
        if (takeLine (room name) s.stream).1.length = 0 then some s'
        else if s'.buf (name.length + 2) = 47 then
          if parseCommand (s'.buf.textAt
              (name.length + 2 + (takeLine (room name) s.stream).1.length + 1) (name.length + 2)) then
            chat name fuel s'
          else some s'
        else chat name fuel ((s'.strcat
          (name.length + 2 + (takeLine (room name) s.stream).1.length) (ascii "\n")).broadcastMsg) := by
  obtain ⟨s', run, received⟩ := LineRecv_spec (name.length + 2)
    (BitVec.ofNat 32 MAX_PATH - BitVec.ofNat 32 (name.length + 2) - 1)
    (s.snprintf (name ++ ascii "> "))
  refine ⟨s', received, ?_⟩
  rw [chat]
  dsimp only
  rw [run]
  rfl

/-- The connection is left after finitely many lines, and what was written stays written. -/
theorem chat_ends {fuel : Nat} {s : State} (enough : s.stream.length < fuel) :
    ∃ s', chat name fuel s = some s' ∧ (Sound s' → Sound s) := by
  induction fuel generalizing s with
  | zero => exact absurd enough (Nat.not_lt_zero _)
  | succ fuel ih =>
    obtain ⟨s₂, received, run⟩ := chat_round name fuel s
    have back (sound : Sound s₂) : Sound s :=
      (sound_snprintf _).mp (received.sound_iff.mp sound).1
    rw [run]
    by_cases empty : (takeLine (room name) s.stream).1.length = 0
    · rw [if_pos empty]
      exact ⟨s₂, rfl, back⟩
    · have left := (takeLine_length (room name) s.stream).2
      have fewer : s₂.stream.length < fuel := by
        rw [received.stream]
        omega
      rw [if_neg empty]
      split
      · split
        · obtain ⟨s', ends, sound⟩ := ih fewer
          exact ⟨s', ends, fun h => back (sound h)⟩
        · exact ⟨s₂, rfl, back⟩
      · obtain ⟨s', ends, sound⟩ := @ih (s₂.strcat _ (ascii "\n")).broadcastMsg fewer
        exact ⟨s', ends, fun h => back (sound_strcat.mp (sound_broadcastMsg.mp (sound h)).1).1⟩

theorem chat_short {fuel : Nat} {s : State} (short : name.length ≤ 255)
    (enough : s.stream.length < fuel) :
    ∃ s', chat name fuel s = some s' ∧ (Sound s' ↔ Sound s) := by
  induction fuel generalizing s with
  | zero => exact absurd enough (Nat.not_lt_zero _)
  | succ fuel ih =>
    obtain ⟨s₂, received, run⟩ := chat_round name fuel s
    have ⟨within, left⟩ := takeLine_length (room name) s.stream
    rw [room_short short] at within left
    rw [room_short short] at received run
    have same : Sound s₂ ↔ Sound s := by
      rw [received.sound_iff, sound_snprintf]
      apply and_iff_left
      rw [MAX_PATH]
      omega
    rw [run]
    by_cases empty : (takeLine (255 - name.length) s.stream).1.length = 0
    · rw [if_pos empty]
      exact ⟨s₂, rfl, same⟩
    · have fewer : s₂.stream.length < fuel := by
        rw [received.stream]
        omega
      rw [if_neg empty]
      split
      · split
        · obtain ⟨s', ends, sound⟩ := ih fewer
          exact ⟨s', ends, sound.trans same⟩
        · exact ⟨s₂, rfl, same⟩
      · obtain ⟨s', ends, sound⟩ := @ih (s₂.strcat _ (ascii "\n")).broadcastMsg fewer
        refine ⟨s', ends, sound.trans ((sound_appended received.nul ?_).trans same)⟩
        rw [MAX_PATH]
        omega

/-- When a line reaches behind buf, nothing that follows makes up for it. -/
theorem chat_overrun {fuel : Nat} {s : State} (enough : s.stream.length < fuel)
    (overrun : MAX_PATH ≤ name.length + 2 + (takeLine (room name) s.stream).1.length) :
    ∃ s', chat name fuel s = some s' ∧ ¬ Sound s' := by
  rcases fuel with - | fuel
  · exact absurd enough (Nat.not_lt_zero _)
  obtain ⟨s₂, received, run⟩ := chat_round name fuel s
  have lost : ¬ Sound s₂ := fun sound => absurd (received.sound_iff.mp sound).2 (by omega)
  rw [run]
  by_cases empty : (takeLine (room name) s.stream).1.length = 0
  · rw [if_pos empty]
    exact ⟨s₂, rfl, lost⟩
  · have left := (takeLine_length (room name) s.stream).2
    have fewer : s₂.stream.length < fuel := by
      rw [received.stream]
      omega
    rw [if_neg empty]
    split
    · split
      · obtain ⟨s', ends, sound⟩ := @chat_ends name fuel s₂ fewer
        exact ⟨s', ends, fun h => lost (sound h)⟩
      · exact ⟨s₂, rfl, lost⟩
    · obtain ⟨s', ends, sound⟩ :=
        @chat_ends name fuel (s₂.strcat _ (ascii "\n")).broadcastMsg fewer
      exact ⟨s', ends, fun h => lost (sound_strcat.mp (sound_broadcastMsg.mp (sound h)).1).1⟩

/-- What stands before the place that a line is received at. -/
theorem Received.prompt {s s' : State} {text : List BYTE} {rest : List (Option BYTE)}
    (received : Received (s.snprintf (name ++ ascii "> ")) (name.length + 2) text rest s')
    (fits : name.length + 2 ≤ MAX_PATH) :
    s'.buf.read 0 (name.length + 2) = name ++ ascii "> " := by
  have length : (name ++ ascii "> ").length = name.length + 2 := by
    rw [List.length_append]
    rfl
  have same : s'.buf.read 0 (name.length + 2) =
      (s.snprintf (name ++ ascii "> ")).buf.read 0 (name.length + 2) :=
    Cells.read_congr fun i _ below => received.before i (by omega)
  have kept : name.length + 2 ≤ ((name ++ ascii "> " ++ [0]).take MAX_PATH).length := by
    rw [List.length_take, List.length_append, length, List.length_singleton]
    omega
  rw [same, State.snprintf, State.put, Cells.read_write_front _ _ _ kept, List.take_take,
    Nat.min_eq_left fits, List.take_append_of_le_length (Nat.le_of_eq length.symm),
    List.take_of_length_le (Nat.le_of_eq length)]

theorem prompt_clean (clean : ∀ c ∈ name, c ≠ 0) : ∀ c ∈ name ++ ascii "> ", c ≠ 0 := by
  intro c mem
  rcases List.mem_append.mp mem with mem | mem
  · exact clean c mem
  · have prompt : ∀ c ∈ ascii "> ", c ≠ 0 := by decide
    exact prompt c mem

/-- Two bytes are left of buf for a line: one character that is no slash and no NUL is followed
    by a line feed, and the NUL of strcat is behind buf. -/
theorem strcat_256 {s s' : State} {c : BYTE} {rest : List (Option BYTE)}
    (clean : ∀ c ∈ name, c ≠ 0) (length : name.length = 256)
    (received : Received (s.snprintf (name ++ ascii "> ")) (name.length + 2) [c] rest s') :
    Sound (s'.strcat (name.length + 2 + 1) (ascii "\n")).broadcastMsg ↔ Sound s ∧ c = 0 := by
  have fits : name.length + 2 ≤ MAX_PATH := by
    rw [length]
    decide
  have front := received.prompt fits
  have first := received.first
  have nul := received.nul
  have size : (name ++ ascii "> ").length = 258 := by
    rw [List.length_append, length]
    rfl
  have before : Sound s' ↔ Sound s := by
    rw [received.sound_iff, sound_snprintf]
    apply and_iff_left
    rw [length, List.length_singleton]
    decide
  rw [length] at front first nul ⊢
  by_cases zero : c = 0
  · have holds : Cells.Holds s'.buf 260 0 (name ++ ascii "> ") := by
      refine ⟨?_, prompt_clean clean, by omega⟩
      rw [size, Cells.read_add, front, Cells.read, Nat.zero_add, first, zero]
      rfl
    have ends : 0 ∈ (s'.strcat 259 (ascii "\n")).buf.read 0 MAX_PATH := by
      refine Cells.mem_read.mpr ⟨259, by decide, ?_⟩
      change s'.buf.write (s'.buf.textAt 260 0).length (ascii "\n" ++ [0]) 259 = 0
      rw [holds.textAt, size]
      rfl
    rw [sound_broadcastMsg, sound_strcat, holds.textAt, size, before]
    constructor
    · intro facts
      exact ⟨facts.1.1, zero⟩
    · intro facts
      exact ⟨⟨facts.1, by decide⟩, ends⟩
  · have holds : Cells.Holds s'.buf 260 0 (name ++ ascii "> " ++ [c]) := by
      refine ⟨?_, ?_, ?_⟩
      · rw [List.length_append, size, Cells.read_add, Cells.read_add, front]
        simp only [List.length_singleton, Cells.read, Nat.zero_add, first]
        exact congrArg _ (congrArg (fun b => [b]) nul)
      · intro b mem
        rcases List.mem_append.mp mem with mem | mem
        · exact prompt_clean clean b mem
        · rw [List.mem_singleton.mp mem]
          exact zero
      · rw [List.length_append, size, List.length_singleton]
        decide
    rw [sound_broadcastMsg, sound_strcat, holds.textAt, List.length_append, size,
      List.length_singleton]
    constructor
    · intro facts
      exact absurd facts.1.2 (by decide)
    · intro facts
      exact absurd facts.2 zero

theorem onlyMarks_iff {stream : List (Option BYTE)} {c : BYTE} (short : (line stream).1 = [c]) :
    OnlyMarks stream ↔ (c = 47 ∨ c = 0) ∧ OnlyMarks (line stream).2 := by
  constructor
  · intro marks
    cases marks with
    | last empty =>
      rw [short] at empty
      cases empty
    | mark same either later =>
      rw [short] at same
      cases same
      exact ⟨either, later⟩
  · intro facts
    exact .mark short facts.1 facts.2

theorem onlyMarks_short {stream : List (Option BYTE)} (marks : OnlyMarks stream) :
    (line stream).1.length < 2 := by
  cases marks with
  | last empty =>
    rw [empty]
    decide
  | mark short either later =>
    rw [short, List.length_singleton]
    decide

theorem chat_256 {fuel : Nat} {s : State} (clean : ∀ c ∈ name, c ≠ 0) (length : name.length = 256)
    (enough : s.stream.length < fuel) :
    ∃ s', chat name fuel s = some s' ∧ (Sound s' ↔ Sound s ∧ OnlyMarks s.stream) := by
  induction fuel generalizing s with
  | zero => exact absurd enough (Nat.not_lt_zero _)
  | succ fuel ih =>
    have wide := room_long (Or.inl length)
    by_cases short : (line s.stream).1.length < 2
    · have whole : takeLine (room name) s.stream = line s.stream := takeLine_of_line (by omega)
      obtain ⟨s₂, received, run⟩ := chat_round name fuel s
      have left := (takeLine_length (room name) s.stream).2
      rw [whole] at received run left
      have same : Sound s₂ ↔ Sound s := by
        rw [received.sound_iff, sound_snprintf]
        apply and_iff_left
        rw [MAX_PATH]
        omega
      rw [run]
      rcases text : (line s.stream).1 with - | ⟨c, tail⟩
      · rw [if_pos List.length_nil]
        exact ⟨s₂, rfl, same.trans (and_iff_left (.last text)).symm⟩
      · have one : tail = [] := by
          rw [text, List.length_cons] at short
          exact List.eq_nil_of_length_eq_zero (by omega)
        subst one
        have fewer : s₂.stream.length < fuel := by
          rw [received.stream]
          rw [text, List.length_singleton] at left
          omega
        have rest := received.stream
        rw [text] at received
        rw [if_neg (by simp), received.first, onlyMarks_iff text]
        by_cases slash : c = 47
        · have holds : Cells.Holds s₂.buf (name.length + 2 + [c].length + 1) (name.length + 2) [c] :=
            ⟨received.stored, by simp [slash], Nat.lt_succ_self _⟩
          have cmd : parseCommand [c] = true := by
            rw [slash]
            decide
          obtain ⟨s', ends, sound⟩ := ih fewer
          rw [if_pos slash, holds.textAt, if_pos cmd]
          refine ⟨s', ends, ?_⟩
          rw [sound, same, rest]
          simp [slash]
        · obtain ⟨s', ends, sound⟩ := @ih (s₂.strcat _ (ascii "\n")).broadcastMsg fewer
          rw [if_neg slash]
          refine ⟨s', ends, ?_⟩
          rw [sound]
          rw [show [c].length = 1 from rfl, strcat_256 clean length received, ← rest]
          simp only [slash, false_or, and_assoc]
          rfl
    · have overrun : MAX_PATH ≤ name.length + 2 + (takeLine (room name) s.stream).1.length := by
        by_contra inside
        rw [MAX_PATH, length] at inside
        have whole := @takeLine_line (room name) s.stream (by omega)
        rw [whole] at inside
        omega
      obtain ⟨s', ends, lost⟩ := chat_overrun enough overrun
      exact ⟨s', ends, fun h => absurd h lost, fun h => absurd (onlyMarks_short h.2) short⟩

theorem chat_257 {fuel : Nat} {s : State} (length : name.length = 257)
    (enough : s.stream.length < fuel) :
    ∃ s', chat name fuel s = some s' ∧ (Sound s' ↔ Sound s ∧ (line s.stream).1 = []) := by
  have wide := room_long (Or.inr length)
  by_cases empty : (line s.stream).1 = []
  · have whole : takeLine (room name) s.stream = line s.stream := by
      apply takeLine_of_line
      rw [empty, List.length_nil]
      omega
    rcases fuel with - | fuel
    · exact absurd enough (Nat.not_lt_zero _)
    obtain ⟨s₂, received, run⟩ := chat_round name fuel s
    rw [whole, empty] at received run
    rw [run, if_pos List.length_nil]
    refine ⟨s₂, rfl, ?_⟩
    rw [received.sound_iff, sound_snprintf, length]
    exact ⟨fun h => ⟨h.1, empty⟩, fun h => ⟨h.1, by decide⟩⟩
  · have overrun : MAX_PATH ≤ name.length + 2 + (takeLine (room name) s.stream).1.length := by
      by_contra inside
      rw [MAX_PATH, length] at inside
      have whole := @takeLine_line (room name) s.stream (by omega)
      rw [whole] at inside
      exact empty (List.eq_nil_of_length_eq_zero (by omega))
    obtain ⟨s', ends, lost⟩ := chat_overrun enough overrun
    exact ⟨s', ends, fun h => absurd h lost, fun h => absurd h.2 empty⟩

theorem chat_sound {fuel : Nat} {s : State} (clean : ∀ c ∈ name, c ≠ 0)
    (short : name.length ≤ 258) (enough : s.stream.length < fuel) :
    ∃ s', chat name fuel s = some s' ∧ (Sound s' ↔ Sound s ∧ Fits name s.stream) := by
  have lengths : name.length ≤ 255 ∨ name.length = 256 ∨ name.length = 257 ∨ name.length = 258 := by
    omega
  rcases lengths with length | length | length | length
  · obtain ⟨s', ends, sound⟩ := chat_short length enough
    exact ⟨s', ends, sound.trans (and_iff_left (Or.inl length)).symm⟩
  · obtain ⟨s', ends, sound⟩ := chat_256 clean length enough
    exact ⟨s', ends, by simp [sound, Fits, length]⟩
  · obtain ⟨s', ends, sound⟩ := chat_257 length enough
    exact ⟨s', ends, by simp [sound, Fits, length]⟩
  · obtain ⟨s', ends, lost⟩ := @chat_overrun name _ _ enough (by rw [MAX_PATH]; omega)
    exact ⟨s', ends, by simp [lost, Fits, length]⟩

end Chat

/-- The lines that Server broadcasts itself are cut to buf. -/
theorem sound_announced {s : State} (text : List BYTE) :
    Sound ((s.snprintf text).put (MAX_PATH - 1) [0]).broadcastMsg ↔ Sound s := by
  have ends : 0 ∈ ((s.snprintf text).put (MAX_PATH - 1) [0]).buf.read 0 MAX_PATH := by
    refine Cells.mem_read.mpr ⟨MAX_PATH - 1, by decide, ?_⟩
    change (s.snprintf text).buf.write (MAX_PATH - 1) [0] (0 + (MAX_PATH - 1)) = 0
    rw [Cells.write_one, if_pos (Nat.zero_add _)]
  rw [sound_broadcastMsg, and_iff_left ends, sound_put (by simp), sound_snprintf]
  exact and_iff_left (by decide)

/-- The nickname that the first line gives. -/
def nickname (stream : List (Option BYTE)) : List BYTE :=
  (takeLine 258 stream).1.takeWhile (· ≠ 0)

/-- Server comes to its end with nothing written outside buf and every broadcast ended in it. -/
def Right (refused : List BYTE → Bool) (buf : Cells BYTE) (stream : List (Option BYTE)) : Prop :=
  ∃ s, Server refused buf stream = some s ∧ Sound s

theorem Server_ends (refused : List BYTE → Bool) (buf : Cells BYTE) (stream : List (Option BYTE)) :
    ∃ s, Server refused buf stream = some s ∧
      (Sound s ↔ (takeLine 258 stream).1 = [] ∨ refused (nickname stream) = true ∨
        Fits (nickname stream) (takeLine 258 stream).2) := by
  have limit : (BitVec.ofNat 32 MAX_PATH - 2).toNat = 258 := by decide
  obtain ⟨s, run, received⟩ := LineRecv_spec 0 (BitVec.ofNat 32 MAX_PATH) ⟨buf, stream, [], []⟩
  rw [limit] at run received
  dsimp only at run received
  have short := (takeLine_length 258 stream).1
  have start : Sound ⟨buf, stream, [], []⟩ :=
    ⟨fun _ mem => absurd mem List.not_mem_nil, fun _ mem => absurd mem List.not_mem_nil⟩
  have sound : Sound s := received.sound_iff.mpr ⟨start, by rw [MAX_PATH]; omega⟩
  have name : s.buf.textAt MAX_PATH 0 = nickname stream :=
    Cells.textAt_cells received.stored (by rw [MAX_PATH]; omega)
  have clean : ∀ c ∈ nickname stream, c ≠ 0 := by
    intro c mem
    simpa using List.mem_takeWhile_imp mem
  have shorter : (nickname stream).length ≤ 258 :=
    Nat.le_trans (List.takeWhile_sublist _).length_le short
  have left := received.stream
  rw [Server, run]
  dsimp only at left ⊢
  rw [name]
  by_cases empty : (takeLine 258 stream).1.length = 0
  · rw [if_pos empty]
    exact ⟨s, rfl, fun _ => Or.inl (List.eq_nil_of_length_eq_zero empty), fun _ => sound⟩
  · have some_ : (takeLine 258 stream).1 ≠ [] := fun same => empty (congrArg List.length same)
    rw [if_neg empty]
    by_cases used : refused (nickname stream) = true
    · rw [if_pos used]
      exact ⟨s, rfl, fun _ => Or.inr (Or.inl used), fun _ => sound⟩
    · rw [if_neg used]
      obtain ⟨s', ends, kept⟩ := @chat_sound (nickname stream) _
        ((s.snprintf (nickname stream ++ ascii " joined the chat.\n")).put (MAX_PATH - 1)
          [0]).broadcastMsg clean shorter (Nat.lt_succ_self _)
      rw [ends]
      refine ⟨_, rfl, ?_⟩
      rw [sound_announced, kept, sound_announced, and_iff_right sound, or_iff_right some_,
        or_iff_right used]
      exact Iff.of_eq (congrArg _ left)

/-- buf holds everything exactly when the nickname is not accepted or fits. -/
theorem Server_right_iff (refused : List BYTE → Bool) (buf : Cells BYTE)
    (stream : List (Option BYTE)) :
    Right refused buf stream ↔ (takeLine 258 stream).1 = [] ∨ refused (nickname stream) = true ∨
      Fits (nickname stream) (takeLine 258 stream).2 := by
  obtain ⟨s, ends, sound⟩ := Server_ends refused buf stream
  rw [← sound]
  constructor
  · intro right
    obtain ⟨s', same, sound'⟩ := right
    rw [ends] at same
    cases same
    exact sound'
  · intro sound'
    exact ⟨s, ends, sound'⟩

/-- A nickname of 256 characters and the line hi. -/
theorem Server_overruns : ¬ Right (fun _ => false) (fun _ => 0)
    (List.replicate 256 (some 97) ++ [some 10, some 104, some 105, some 10]) := by
  have received : takeLine 258 (List.replicate 256 (some 97) ++
      [some 10, some 104, some 105, some 10]) =
      (List.replicate 256 97, [some 104, some 105, some 10]) := by decide +kernel
  have name : (nickname (List.replicate 256 (some 97) ++
      [some 10, some 104, some 105, some 10])).length = 256 := by
    rw [nickname, received]
    decide +kernel
  obtain ⟨s, ends, sound⟩ := Server_ends (fun _ => false) (fun _ => 0)
    (List.replicate 256 (some 97) ++ [some 10, some 104, some 105, some 10])
  intro right
  obtain ⟨s', same, sound'⟩ := right
  rw [ends] at same
  cases same
  rcases sound.mp sound' with empty | refused | fits
  · rw [received] at empty
    exact absurd empty (by decide)
  · cases refused
  · rw [Fits, name, received] at fits
    rcases fits with short | ⟨-, marks⟩ | ⟨other, -⟩
    · exact absurd short (by decide)
    · exact absurd (onlyMarks_short marks) (by decide)
    · exact absurd other (by decide)

end Chatsrv.LineBuffer
