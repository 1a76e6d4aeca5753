import LtrData.Lab2.Items
import LtrData.Library.TransitionSystem

namespace Lab2

open Containers

/-- What the world file describes. -/
structure World where
  itemsCollection : List Item
  rooms : List Room

inductive Command
  | none
  | pick
  | drop
  | use
  | look
  | west
  | east
  | north
  | south
  | invent
  | done
deriving DecidableEq

/-- The words that set cmdFound. -/
def word (fold : Char → Char) (tok : Text) : Option Command :=
  let is := fun name : String => compareToIgnoreCase fold tok name.toList
  if is "PICK" || is "TAKE" || is "GET" then some .pick
  else if is "DROP" then some .drop
  else if is "LOOK" || is "EXAMINE" then some .look
  else if is "WEST" then some .west
  else if is "EAST" then some .east
  else if is "NORTH" then some .north
  else if is "SOUTH" then some .south
  else if is "INVENT" then some .invent
  else none

def Room.opened (room : Room) : Room := { room with requiredItem := none }

namespace Game

/-- `newRoom.enter()` and `room = newRoom` -/
def enter (g : Game) (newRoom : Nat) : Game :=
  { g with rooms := g.rooms.modify newRoom Room.opened, room := newRoom }

/-- A move to a neighbour. The name of the required item is looked up for the message, whether the
    player has it or not. -/
def changeRoom (g : Game) (newRoom : Nat) : Option Game := do
  let room ← g.rooms[newRoom]?
  match room.requiredItem with
  | none => pure (g.enter newRoom)
  | some entranceItem =>
    let (item, g) ← g.takeItem (byIndex entranceItem)
    let _ ← g.itemsCollection[entranceItem]?
    match item with
    | none => pure g
    | some _ => pure (enter { g with used := g.used ++ [(entranceItem, newRoom)] } newRoom)

/-- The constructor of the player, which has no items and enters the first room. -/
def start (w : World) : Option Game :=
  match w.rooms with
  | [] => none
  | _ :: _ => some (enter ⟨w.itemsCollection, w.rooms, [], 0, []⟩ 0)

/-- One token of a command line. What is printed for LOOK is left out; the cmdDone that it sets when
    no token follows is overwritten at once. -/
def token (fold : Char → Char) (g : Game) (cmdFound : Command) (tok : Text) :
    Option (Game × Command) :=
  match word fold tok with
  | some cmdFound => some (g, cmdFound)
  | none =>
    if cmdFound = .pick then
      match g.takeItemFromRoom (byName fold g.itemsCollection tok) with
      | none => none
      | some (none, g) => some (g, .pick)
      | some (some item, g) => some (g.addItem item, .done)
    else if cmdFound = .drop then
      match g.takeItem (byName fold g.itemsCollection tok) with
      | none => none
      | some (none, g) => some (g, .drop)
      | some (some item, g) => (g.addItemToRoom item).map (·, .done)
    else some (g, cmdFound)

/-- The switch at the end of a line. The cases that only print are left out. -/
def finish (g : Game) (cmdFound : Command) : Option Game := do
  let room ← g.rooms[g.room]?
  match cmdFound with
  | .west => g.changeRoom room.roomWest
  | .east => g.changeRoom room.roomEast
  | .south => g.changeRoom room.roomSouth
  | .north => g.changeRoom room.roomNorth
  | _ => pure g

end Game

/-- The delimiters of a StringTokenizer. -/
def isDelimiter (c : Char) : Bool := c ∈ [' ', '\t', '\n', '\r', '\x0c']

def tokens (str : Text) : List Text := (str.splitOnP isDelimiter).filter (· ≠ [])

/-- Where cmdUI is: before a line, in one with the tokens that are left of it, or behind its loop. -/
inductive Phase
  | reading
  | inLine (cmdFound : Command) (strtok : List Text)
  | ended

structure Session where
  game : Game
  phase : Phase

def readLine (fold : Char → Char) (str : Text) : Phase :=
  if compareToIgnoreCase fold str "EXIT".toList then .ended
  else match tokens str with
    | [] => .reading
    | strtok => .inLine .none strtok

/-- The next step inside a line. -/
def advance (fold : Char → Char) (g : Game) (cmdFound : Command) : List Text → Option Session
  | [] => (g.finish cmdFound).map (⟨·, .reading⟩)
  | tok :: strtok =>
    (g.token fold cmdFound tok).map fun (g, cmdFound) => ⟨g, .inLine cmdFound strtok⟩

inductive Step (fold : Char → Char) : Session → Session → Prop
  | line (g : Game) (str : Text) : Step fold ⟨g, .reading⟩ ⟨g, readLine fold str⟩
  | inputEnds (g : Game) : Step fold ⟨g, .reading⟩ ⟨g, .ended⟩
  | advance {g : Game} {cmdFound : Command} {strtok : List Text} {s' : Session}
      (taken : advance fold g cmdFound strtok = some s') : Step fold ⟨g, .inLine cmdFound strtok⟩ s'

def cmdUI (fold : Char → Char) (w : World) : TransitionSystem Session where
  start s := s.phase = .reading ∧ Game.start w = some s.game
  step := Step fold

namespace World

def lists (w : World) : List (List Nat) :=
  w.rooms.map Room.items ++ w.itemsCollection.map Item.items

def Contains (w : World) (this item : Nat) : Prop :=
  ∃ object, w.itemsCollection[this]? = some object ∧ item ∈ object.items

/-- No item is placed twice, none is inside itself, and all indexes are valid. -/
structure Valid (w : World) : Prop where
  once : ∀ item, held w.lists item ≤ 1
  acyclic : ∀ item, ¬ Relation.TransGen w.Contains item item
  placed : ∀ list ∈ w.lists, ∀ item ∈ list, item < w.itemsCollection.length
  required : ∀ room ∈ w.rooms, ∀ item, room.requiredItem = some item → item < w.itemsCollection.length
  neighbours : ∀ room ∈ w.rooms, room.roomWest < w.rooms.length ∧ room.roomEast < w.rooms.length ∧
    room.roomNorth < w.rooms.length ∧ room.roomSouth < w.rooms.length

end World

/-- What holds of the items and the rooms in every state of a game, where `rank` is a depth of the
    items in each other. -/
structure Stock (w : World) (rank : Nat → Nat) (g : Game) : Prop where
  held_eq : ∀ item, held g.lists item + (g.used.map Prod.fst).count item = held w.lists item
  length : g.itemsCollection.length = w.itemsCollection.length
  ranked : ∀ (this : Nat) (object : Item), g.itemsCollection[this]? = some object →
    ∀ b ∈ object.items, rank b < rank this
  bound : ∀ b, rank b ≤ w.itemsCollection.length
  rooms : (g.rooms.map Room.bare).length = w.rooms.length
  doors : ∀ (r : Nat) (room : Room), (g.rooms.map Room.bare)[r]? = some room →
    ∃ first : Room, w.rooms[r]? = some first ∧ (room = first.bare ∨ room = first.bare.opened)
  here : g.room < w.rooms.length
  used_opened : ∀ p ∈ g.used, ∀ room : Room, (g.rooms.map Room.bare)[p.2]? = some room →
    room.requiredItem = none
  used_once : (g.used.map Prod.snd).Nodup

/-- The player is in a room that has been entered. -/
structure Inv (w : World) (rank : Nat → Nat) (g : Game) : Prop extends Stock w rank g where
  here_opened : ∀ room : Room, (g.rooms.map Room.bare)[g.room]? = some room →
    room.requiredItem = none

section steps

variable {w : World} {rank : Nat → Nat} {g g' : Game} {item r : Nat} {room : Room}
  {fold : Char → Char} {cmdFound : Command} {strtok : List Text}

/-- Moves of items that lose none. -/
theorem Inv.kept (inv : Inv w rank g) (kept : Kept g g')
    (same : ∀ item, held g'.lists item = held g.lists item) : Inv w rank g' := by
  refine ⟨⟨fun item => ?_, kept.length.trans inv.length, fun this object' found' b mem => ?_,
    inv.bound, ?_, ?_, ?_, ?_, ?_⟩, ?_⟩
  · rw [same, kept.used]
    exact inv.held_eq item
  · obtain ⟨object, found, sub⟩ := kept.contents this object' found'
    exact inv.ranked this object found b (sub b mem)
  · rw [kept.bare]
    exact inv.rooms
  · rw [kept.bare]
    exact inv.doors
  · rw [kept.room]
    exact inv.here
  · rw [kept.bare, kept.used]
    exact inv.used_opened
  · rw [kept.used]
    exact inv.used_once
  · rw [kept.bare, kept.room]
    exact inv.here_opened

theorem Inv.room_exists (inv : Inv w rank g) (inside : r < w.rooms.length) :
    ∃ room, g.rooms[r]? = some room := by
  have length := inv.rooms
  rw [List.length_map] at length
  exact ⟨_, List.getElem?_eq_getElem (by omega)⟩

theorem Kept.rooms_length (kept : Kept g g') : g'.rooms.length = g.rooms.length := by
  have length := congrArg List.length kept.bare
  rwa [List.length_map, List.length_map] at length

theorem Kept.here (kept : Kept g g') (inv : Inv w rank g) : g'.room < g'.rooms.length := by
  have length := inv.rooms
  have inside := inv.here
  rw [List.length_map] at length
  rw [kept.rooms_length, kept.room]
  omega

theorem bare_getElem? (found : g.rooms[r]? = some room) :
    (g.rooms.map Room.bare)[r]? = some room.bare := by
  rw [List.getElem?_map, found]
  rfl

theorem held_le (inv : Inv w rank g) (item : Nat) : held g.lists item ≤ held w.lists item := by
  have total := inv.held_eq item
  omega

theorem Inv.inside (inv : Inv w rank g) (valid : w.Valid) {list : List Nat} (member : list ∈ g.lists)
    (mem : item ∈ list) : item < g.itemsCollection.length := by
  have positive := held_pos member mem
  have le := held_le inv item
  have some_ : ¬ ∀ list ∈ w.lists, item ∉ list := fun none_ => by
    rw [held_eq_zero_iff.mpr none_] at le
    omega
  obtain ⟨list', some_⟩ := not_forall.mp some_
  obtain ⟨member', mem'⟩ := Classical.not_imp.mp some_
  rw [inv.length]
  exact valid.placed list' member' item (not_not.mp mem')

theorem Inv.nested (inv : Inv w rank g) (valid : w.Valid) : Nested rank g.itemsCollection where
  inside _ _ found _ mem := inv.inside valid
    (List.mem_of_getElem? (getElem?_lists_item found)) mem
  ranked := inv.ranked

theorem Inv.search_total (inv : Inv w rank g) (valid : w.Valid) {wanted : Nat → Option Bool}
    (compares : Compares wanted g.itemsCollection) {items : List Nat} (member : items ∈ g.lists) :
    ∃ result, search wanted g.itemsCollection items = some result :=
  Lab2.search_total (inv.nested valid) compares (fun b => by rw [inv.length]; exact inv.bound b)
    fun _ mem => inv.inside valid member mem

theorem Inv.takeItem_total (inv : Inv w rank g) (valid : w.Valid) {wanted : Nat → Option Bool}
    (compares : Compares wanted g.itemsCollection) : ∃ result, g.takeItem wanted = some result := by
  have own : g.items ∈ g.lists := List.mem_cons_self
  obtain ⟨result, total⟩ := inv.search_total valid compares own
  rw [Game.takeItem, total]
  cases result <;> exact ⟨_, rfl⟩

theorem Inv.takeItemFromRoom_total (inv : Inv w rank g) (valid : w.Valid)
    {wanted : Nat → Option Bool} (compares : Compares wanted g.itemsCollection) :
    ∃ result, g.takeItemFromRoom wanted = some result := by
  obtain ⟨room, found⟩ := inv.room_exists inv.here
  obtain ⟨result, total⟩ := inv.search_total valid compares
    (List.mem_of_getElem? (getElem?_lists_room found))
  rw [Game.takeItemFromRoom, found]
  dsimp only
  rw [total]
  cases result <;> exact ⟨_, rfl⟩

theorem addItemToRoom_total (here : g.room < g.rooms.length) (item : Nat) :
    ∃ g', g.addItemToRoom item = some g' := by
  rw [Game.addItemToRoom, List.getElem?_eq_getElem here]
  exact ⟨_, rfl⟩

/-- A token moves items from list to list, and leaves the player where it is. -/
theorem Inv.token (inv : Inv w rank g) (valid : w.Valid) (fold : Char → Char) (cmdFound : Command)
    (tok : Text) : ∃ g' cmdFound', g.token fold cmdFound tok = some (g', cmdFound') ∧
      Inv w rank g' ∧ g'.used = g.used ∧ g'.room = g.room := by
  have unchanged : ∀ c : Command, ∃ g' cmdFound', some (g, c) = some (g', cmdFound') ∧
      Inv w rank g' ∧ g'.used = g.used ∧ g'.room = g.room := fun c => ⟨g, c, rfl, inv, rfl, rfl⟩
  have compares := byName_compares fold g.itemsCollection tok
  rw [Game.token]
  split
  · exact unchanged _
  · split
    · obtain ⟨⟨taken, g₁⟩, total⟩ := inv.takeItemFromRoom_total valid compares
      rw [total]
      cases taken with
      | none =>
        obtain rfl := takeItemFromRoom_missing total
        exact unchanged _
      | some item =>
        obtain ⟨taken, kept⟩ := takeItemFromRoom_found total
        obtain ⟨put, kept'⟩ := addItem_put g₁ item
        refine ⟨_, _, rfl, inv.kept (kept.trans kept') fun b => ?_, kept'.used.trans kept.used,
          kept'.room.trans kept.room⟩
        rw [put.held_eq, taken.held_eq]
    · split
      · obtain ⟨⟨taken, g₁⟩, total⟩ := inv.takeItem_total valid compares
        rw [total]
        cases taken with
        | none =>
          obtain rfl := takeItem_missing total
          exact unchanged _
        | some item =>
          obtain ⟨-, taken, kept⟩ := takeItem_found total
          obtain ⟨g₂, added⟩ := addItemToRoom_total (kept.here inv) item
          obtain ⟨put, kept'⟩ := addItemToRoom_put added
          dsimp only
          rw [added]
          refine ⟨_, _, rfl, inv.kept (kept.trans kept') fun b => ?_, kept'.used.trans kept.used,
            kept'.room.trans kept.room⟩
          rw [put.held_eq, taken.held_eq]
      · exact unchanged _

theorem map_modify {α β : Type} (view : α → β) (f : α → α) (h : β → β)
    (commutes : ∀ a, view (f a) = h (view a)) (list : List α) (i : Nat) :
    (list.modify i f).map view = (list.map view).modify i h := by
  apply List.ext_getElem?
  intro j
  rw [List.getElem?_map, List.getElem?_modify, List.getElem?_modify, List.getElem?_map]
  cases list[j]? with
  | none => rfl
  | some a =>
    by_cases here : i = j
    · simp [here, commutes]
    · simp [here]

theorem enter_lists (g : Game) (r : Nat) : (g.enter r).lists = g.lists := by
  have same : (g.rooms.modify r Room.opened).map Room.items = g.rooms.map Room.items :=
    (map_modify Room.items Room.opened id (fun _ => rfl) g.rooms r).trans (List.modify_id _ _)
  simp only [Game.lists, Game.enter, same]

theorem enter_bare (g : Game) (r : Nat) :
    (g.enter r).rooms.map Room.bare = (g.rooms.map Room.bare).modify r Room.opened :=
  map_modify Room.bare Room.opened Room.opened (fun _ => rfl) g.rooms r

theorem enter_door {rooms : List Room} {i : Nat}
    (found : (rooms.modify r Room.opened)[i]? = some room) :
    ∃ before, rooms[i]? = some before ∧ (room = before ∨ room = before.opened) ∧
      (i = r → room = before.opened) := by
  rw [List.getElem?_modify] at found
  obtain ⟨before, found, same⟩ := Option.map_eq_some_iff.mp found
  by_cases here : r = i
  · rw [if_pos here] at same
    exact ⟨before, found, Or.inr same.symm, fun _ => same.symm⟩
  · rw [if_neg here] at same
    exact ⟨before, found, Or.inl same.symm, fun other => absurd other.symm here⟩

/-- The player enters a room, maybe after an item was taken for it. -/
theorem Stock.enter {used : List (Nat × Nat)} (stock : Stock w rank g) (kept : Kept g g')
    (inside : r < w.rooms.length)
    (counts : ∀ item, held g'.lists item + (used.map Prod.fst).count item = held w.lists item)
    (known : ∀ p ∈ used, p ∈ g.used ∨ p.2 = r) (once : (used.map Prod.snd).Nodup) :
    Inv w rank (Game.enter { g' with used := used } r) := by
  have lists : (Game.enter { g' with used := used } r).lists = g'.lists := enter_lists _ r
  have bare : (Game.enter { g' with used := used } r).rooms.map Room.bare =
      (g.rooms.map Room.bare).modify r Room.opened := by
    rw [enter_bare]
    exact congrArg (fun rooms => List.modify rooms r Room.opened) kept.bare
  refine ⟨⟨fun item => ?_, kept.length.trans stock.length, fun this object' found' b mem => ?_,
    stock.bound, ?_, fun i room found => ?_, inside, fun p mem room found => ?_, once⟩,
    fun room found => ?_⟩
  · rw [lists]
    exact counts item
  · obtain ⟨object, found, sub⟩ := kept.contents this object' found'
    exact stock.ranked this object found b (sub b mem)
  · rw [bare, List.length_modify]
    exact stock.rooms
  · rw [bare] at found
    obtain ⟨before, found, same, -⟩ := enter_door found
    obtain ⟨first, door, either⟩ := stock.doors i before found
    refine ⟨first, door, ?_⟩
    rcases same with rfl | rfl
    · exact either
    · rcases either with rfl | rfl
      · exact Or.inr rfl
      · exact Or.inr rfl
  · rw [bare] at found
    obtain ⟨before, found, same, now⟩ := enter_door found
    rcases known p mem with old | new
    · have open_ := stock.used_opened p old before found
      rcases same with rfl | rfl
      · exact open_
      · rfl
    · rw [now new]
      rfl
  · rw [bare] at found
    obtain ⟨before, -, -, now⟩ := enter_door found
    rw [now rfl]
    rfl

/-- What changes the record of used items: the player is in the room that required the item. -/
def Uses (g g' : Game) : Prop :=
  g'.used = g.used ∨ ∃ (item : Nat) (room : Room), g.rooms[g'.room]? = some room ∧
    room.requiredItem = some item ∧ g'.used = g.used ++ [(item, g'.room)] ∧ g'.room ≠ g.room

theorem Inv.required_inside (inv : Inv w rank g) (valid : w.Valid) (found : g.rooms[r]? = some room)
    (required : room.requiredItem = some item) : item < w.itemsCollection.length := by
  obtain ⟨first, door, either⟩ := inv.doors r room.bare (bare_getElem? found)
  have same : room.bare.requiredItem = some item := required
  rcases either with closed | opened
  · rw [closed] at same
    exact valid.required first (List.mem_of_getElem? door) item same
  · rw [opened] at same
    cases same

theorem Inv.changeRoom (inv : Inv w rank g) (valid : w.Valid) (inside : r < w.rooms.length) :
    ∃ g', g.changeRoom r = some g' ∧ Inv w rank g' ∧ Uses g g' := by
  obtain ⟨room, found⟩ := inv.room_exists inside
  simp only [Game.changeRoom, found, Option.bind_eq_bind, Option.bind_some]
  cases required : room.requiredItem with
  | none =>
    exact ⟨_, rfl, inv.enter (Kept.refl g) inside inv.held_eq (fun _ => Or.inl) inv.used_once,
      Or.inl rfl⟩
  | some item =>
    obtain ⟨⟨taken, g₁⟩, total⟩ := inv.takeItem_total valid (byIndex_compares item _)
    have valid_item := inv.required_inside valid found required
    dsimp only
    rw [total, Option.bind_some]
    cases taken with
    | none =>
      obtain rfl := takeItem_missing total
      rw [List.getElem?_eq_getElem (by rw [inv.length]; exact valid_item)]
      exact ⟨_, rfl, inv, Or.inl rfl⟩
    | some item' =>
      obtain ⟨wanted, taken, kept⟩ := takeItem_found total
      have same : item' = item := by simpa [byIndex] using wanted
      subst same
      rw [List.getElem?_eq_getElem (by rw [kept.length, inv.length]; exact valid_item), kept.used]
      have closed : ∀ p ∈ g.used, p.2 ≠ r := by
        intro p mem here
        have open_ := inv.used_opened p mem room.bare (by rw [here]; exact bare_getElem? found)
        rw [Room.bare, required] at open_
        cases open_
      have elsewhere : r ≠ g.room := by
        intro here
        have open_ := inv.here_opened room.bare (by rw [← here]; exact bare_getElem? found)
        rw [Room.bare, required] at open_
        cases open_
      refine ⟨_, rfl, inv.enter kept inside (fun b => ?_) (fun p mem => ?_) ?_,
        Or.inr ⟨item', room, found, required, rfl, elsewhere⟩⟩
      · have before := inv.held_eq b
        rw [taken.held_eq] at before
        rw [List.map_append, List.count_append, List.map_singleton, List.count_singleton]
        simp only [beq_iff_eq]
        omega
      · rcases List.mem_append.mp mem with old | new
        · exact Or.inl old
        · obtain rfl := List.mem_singleton.mp new
          exact Or.inr rfl
      · rw [List.map_append, List.map_singleton, List.nodup_append]
        refine ⟨inv.used_once, List.nodup_singleton _, fun a mem b new => ?_⟩
        obtain ⟨p, old, rfl⟩ := List.mem_map.mp mem
        rw [List.mem_singleton.mp new]
        exact closed p old

theorem Inv.finish (inv : Inv w rank g) (valid : w.Valid) (cmdFound : Command) :
    ∃ g', g.finish cmdFound = some g' ∧ Inv w rank g' ∧ Uses g g' := by
  obtain ⟨room, found⟩ := inv.room_exists inv.here
  obtain ⟨first, door, either⟩ := inv.doors g.room room.bare (bare_getElem? found)
  obtain ⟨west, east, north, south⟩ := valid.neighbours first (List.mem_of_getElem? door)
  have same (direction : Room → Nat) (bare : ∀ room, direction room.bare = direction room)
      (opened : ∀ room, direction room.opened = direction room) :
      direction room = direction first := by
    rcases either with same | same
    · rw [← bare room, same, bare]
    · rw [← bare room, same, opened, bare]
  simp only [Game.finish, found, Option.bind_eq_bind, Option.bind_some]
  cases cmdFound with
  | west =>
    rw [same Room.roomWest (fun _ => rfl) fun _ => rfl]
    exact inv.changeRoom valid west
  | east =>
    rw [same Room.roomEast (fun _ => rfl) fun _ => rfl]
    exact inv.changeRoom valid east
  | north =>
    rw [same Room.roomNorth (fun _ => rfl) fun _ => rfl]
    exact inv.changeRoom valid north
  | south =>
    rw [same Room.roomSouth (fun _ => rfl) fun _ => rfl]
    exact inv.changeRoom valid south
  | _ => exact ⟨g, rfl, inv, Or.inl rfl⟩

end steps

section runs

variable {w : World} {rank : Nat → Nat} {g g' : Game} {fold : Char → Char} {s s' : Session}

theorem World.Valid.exists_rank (valid : w.Valid) : ∃ rank : Nat → Nat,
    (∀ b, rank b ≤ w.itemsCollection.length) ∧ ∀ (this : Nat) (object : Item),
      w.itemsCollection[this]? = some object → ∀ b ∈ object.items, rank b < rank this := by
  have inside : ∀ a b, w.Contains a b → b ∈ Finset.range w.itemsCollection.length := by
    intro a b contains
    obtain ⟨object, found, mem⟩ := contains
    apply Finset.mem_range.mpr
    exact valid.placed object.items (List.mem_append_right _
      (List.mem_map_of_mem (List.mem_of_getElem? found))) b mem
  obtain ⟨rank, bound, ranked⟩ := Containers.exists_rank _ inside valid.acyclic
  rw [Finset.card_range] at bound
  exact ⟨rank, bound, fun this object found b mem => ranked this b ⟨object, found, mem⟩⟩

theorem inv_start (start : Game.start w = some g) (bound : ∀ b, rank b ≤ w.itemsCollection.length)
    (ranked : ∀ (this : Nat) (object : Item), w.itemsCollection[this]? = some object →
      ∀ b ∈ object.items, rank b < rank this) : Inv w rank g := by
  rw [Game.start] at start
  split at start
  · cases start
  · next first others rooms =>
    obtain rfl := Option.some.inj start
    have inside : 0 < w.rooms.length := by
      rw [rooms]
      exact Nat.zero_lt_succ _
    have stock : Stock w rank ⟨w.itemsCollection, w.rooms, [], 0, []⟩ := by
      refine ⟨fun item => ?_, rfl, ranked, bound, List.length_map _, fun r room found => ?_, inside,
        fun p mem => ?_, List.nodup_nil⟩
      · change held ([] :: w.lists) item + 0 = held w.lists item
        rw [held_cons, List.count_nil, Nat.zero_add, Nat.add_zero]
      · rw [List.getElem?_map] at found
        obtain ⟨door, at_, same⟩ := Option.map_eq_some_iff.mp found
        exact ⟨door, at_, Or.inl same.symm⟩
      · cases mem
    exact stock.enter (Kept.refl _) inside stock.held_eq (fun _ => Or.inl) stock.used_once

/-- One step of the command loop, from a state in which the invariant holds. -/
theorem Inv.step (inv : Inv w rank s.game) (valid : w.Valid) (taken : Step fold s s') :
    Inv w rank s'.game ∧ Uses s.game s'.game := by
  cases taken with
  | line g str => exact ⟨inv, Or.inl rfl⟩
  | inputEnds g => exact ⟨inv, Or.inl rfl⟩
  | @advance g cmdFound strtok s' taken =>
    rcases strtok with - | ⟨tok, strtok⟩
    · obtain ⟨g', finished, inv', uses⟩ := inv.finish valid cmdFound
      rw [advance, finished] at taken
      obtain rfl := Option.some.inj taken
      exact ⟨inv', uses⟩
    · obtain ⟨g', cmdFound', moved, inv', used, -⟩ := inv.token valid fold cmdFound tok
      rw [advance, moved] at taken
      obtain rfl := Option.some.inj taken
      exact ⟨inv', Or.inl used⟩

/-- Before the end of the input there is always a next step. -/
theorem Inv.progress (inv : Inv w rank s.game) (valid : w.Valid) (running : s.phase ≠ .ended) :
    ∃ s', Step fold s s' := by
  obtain ⟨g, phase⟩ := s
  cases phase with
  | reading => exact ⟨_, Step.inputEnds g⟩
  | ended => exact absurd rfl running
  | inLine cmdFound strtok =>
    rcases strtok with - | ⟨tok, strtok⟩
    · obtain ⟨g', finished, -⟩ := inv.finish valid cmdFound
      exact ⟨_, Step.advance (by rw [advance, finished]; rfl)⟩
    · obtain ⟨g', cmdFound', moved, -⟩ := inv.token valid fold cmdFound tok
      exact ⟨_, Step.advance (by rw [advance, moved]; rfl)⟩

theorem inv_reachable (valid : w.Valid) (reachable : (cmdUI fold w).Reachable s) :
    ∃ rank, Inv w rank s.game := by
  obtain ⟨rank, bound, ranked⟩ := valid.exists_rank
  refine ⟨rank, reachable.invariant (I := fun s => Inv w rank s.game) (fun s start => ?_)
    fun s s' _ inv taken => ?_⟩
  · exact inv_start start.2 bound ranked
  · exact (inv.step valid taken).1

/-- Of the items of the world each is in one list or has been used; those that were used opened
    rooms, one item a room, in steps that moved the player there; and the loop never gets stuck. -/
theorem items_kept (valid : w.Valid) (reachable : (cmdUI fold w).Reachable s) :
    (∀ item, (∃ list ∈ w.lists, item ∈ list) →
      (item ∉ s.game.used.map Prod.fst ∧ s.game.lists.countP (item ∈ ·) = 1 ∧
        s.game.lists.flatten.count item = 1) ∨
      ((s.game.used.map Prod.fst).count item = 1 ∧ ∀ list ∈ s.game.lists, item ∉ list)) ∧
    (s.game.used.map Prod.snd).Nodup ∧
    (∀ s', Step fold s s' → Uses s.game s'.game) ∧
    (s.phase ≠ .ended → ∃ s', Step fold s s') := by
  obtain ⟨rank, inv⟩ := inv_reachable valid reachable
  refine ⟨fun item placed => ?_, inv.used_once, fun s' taken => (inv.step valid taken).2,
    inv.progress valid⟩
  obtain ⟨list, member, mem⟩ := placed
  have positive := held_pos member mem
  have once := valid.once item
  have total := inv.held_eq item
  by_cases consumed : item ∈ s.game.used.map Prod.fst
  · have counted : 0 < (s.game.used.map Prod.fst).count item := List.count_pos_iff.mpr consumed
    exact Or.inr ⟨by omega, held_eq_zero_iff.mp (by omega)⟩
  · have uncounted : (s.game.used.map Prod.fst).count item = 0 := List.count_eq_zero.mpr consumed
    have kept : held s.game.lists item = 1 := by omega
    refine Or.inl ⟨consumed, countP_of_held_eq_one kept, ?_⟩
    rw [← held_eq_count]
    exact kept

/-- A key in a chest, in the first of two rooms, opens the second one. -/
def chestWorld : World where
  itemsCollection := [⟨"CHEST".toList, [1]⟩, ⟨"KEY".toList, []⟩]
  rooms := [⟨none, 1, 1, 1, 1, [0]⟩, ⟨some 1, 0, 0, 0, 0, []⟩]

theorem chestWorld_contains {a b : Nat} (contains : chestWorld.Contains a b) : a = 0 ∧ b = 1 := by
  obtain ⟨object, found, mem⟩ := contains
  rcases a with - | - | a
  · obtain rfl := Option.some.inj found
    exact ⟨rfl, List.mem_singleton.mp mem⟩
  · obtain rfl := Option.some.inj found
    cases mem
  · cases found

theorem chestWorld_valid : chestWorld.Valid where
  once item := by
    change held [[0], [], [1], []] item ≤ 1
    simp only [held_cons, held_nil, List.count_singleton, List.count_nil, beq_iff_eq]
    split <;> split <;> omega
  acyclic item path := by
    have ends : ∀ b, Relation.TransGen chestWorld.Contains item b → item = 0 ∧ b = 1 := by
      intro b path
      induction path with
      | single contains => exact chestWorld_contains contains
      | tail _ contains ih => exact ⟨ih.1, (chestWorld_contains contains).2⟩
    obtain ⟨zero, one⟩ := ends item path
    omega
  placed := by decide
  required := by
    intro room mem item required
    simp only [chestWorld, List.mem_cons, List.not_mem_nil, or_false] at mem
    rcases mem with rfl | rfl
    · cases required
    · obtain rfl := Option.some.inj required
      decide
  neighbours := by decide

/-- The game in that world before the first command. -/
def chestGame : Game := Game.enter ⟨chestWorld.itemsCollection, chestWorld.rooms, [], 0, []⟩ 0

theorem chest_kept :
    (∀ item, (∃ list ∈ chestWorld.lists, item ∈ list) →
      (item ∉ chestGame.used.map Prod.fst ∧ chestGame.lists.countP (item ∈ ·) = 1 ∧
        chestGame.lists.flatten.count item = 1) ∨
      ((chestGame.used.map Prod.fst).count item = 1 ∧ ∀ list ∈ chestGame.lists, item ∉ list)) ∧
    (chestGame.used.map Prod.snd).Nodup ∧
    (∀ s', Step Char.toUpper ⟨chestGame, .reading⟩ s' → Uses chestGame s'.game) ∧
    (Phase.reading ≠ .ended → ∃ s', Step Char.toUpper ⟨chestGame, .reading⟩ s') :=
  @items_kept chestWorld Char.toUpper ⟨chestGame, .reading⟩ chestWorld_valid
    (TransitionSystem.reachable_start ⟨rfl, rfl⟩)

example : (chestGame.token Char.toUpper .pick "key".toList).map (·.1.items) = some [1] := by
  decide

end runs

end Lab2
