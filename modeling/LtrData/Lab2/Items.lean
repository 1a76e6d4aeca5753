import LtrData.Library.Containers

namespace Lab2

open Containers

/-- Text without regard to supplementary characters. -/
abbrev Text := List Char

/-- An item of the collection, where its place is its id. -/
structure Item where
  name : Text
  items : List Nat

/-- Rooms and required items are indexes; -1, for no required item, is `none`. -/
structure Room where
  requiredItem : Option Nat
  roomWest : Nat
  roomEast : Nat
  roomNorth : Nat
  roomSouth : Nat
  items : List Nat

/-- The items and the rooms, and the members of the player. `used` is what the player has been told
    of: which items were used to enter which rooms. -/
structure Game where
  itemsCollection : List Item
  rooms : List Room
  items : List Nat
  room : Nat
  used : List (Nat × Nat)

/-- The result of a search in one list of items: nothing; an item of that list, with what is left of
    the list; or one from inside an item of it, with the collection without that one. -/
inductive Search
  | missing
  | here (item : Nat) (left : List Nat)
  | below (item : Nat) (itemsCollection : List Item)

def Search.behind (item : Nat) : Search → Search
  | .missing => .missing
  | .here found left => .here found (item :: left)
  | .below found itemsCollection => .below found itemsCollection

/-- The loop that all take functions have. An index out of range ends it with an exception, `none`. -/
def takeFrom (takeIn : Nat → Option (Option (Nat × List Item))) (wanted : Nat → Option Bool) :
    List Nat → Option Search
  | [] => some .missing
  | item :: items =>
    match wanted item with
    | none => none
    | some true => some (.here item items)
    | some false =>
      match takeIn item with
      | none => none
      | some (some (found, itemsCollection)) => some (.below found itemsCollection)
      | some none => (takeFrom takeIn wanted items).map (·.behind item)

/-- ItemIndex.takeItemByName and takeItemByIndex, with a bound for the recursion. -/
def takeIn (wanted : Nat → Option Bool) (itemsCollection : List Item) :
    Nat → Nat → Option (Option (Nat × List Item))
  | 0, _ => none
  | depth + 1, this =>
    match itemsCollection[this]? with
    | none => none
    | some object =>
      match takeFrom (takeIn wanted itemsCollection depth) wanted object.items with
      | none => none
      | some .missing => some none
      | some (.here found left) =>
        some (some (found, itemsCollection.set this { object with items := left }))
      | some (.below found itemsCollection) => some (some (found, itemsCollection))

def search (wanted : Nat → Option Bool) (itemsCollection : List Item) (items : List Nat) :
    Option Search :=
  takeFrom (takeIn wanted itemsCollection (itemsCollection.length + 1)) wanted items

/-- `fold` is what becomes of a character before it is compared. -/
def compareToIgnoreCase (fold : Char → Char) (a b : Text) : Bool := a.map fold = b.map fold

def byName (fold : Char → Char) (itemsCollection : List Item) (itemName : Text) (item : Nat) :
    Option Bool :=
  itemsCollection[item]?.map fun object => compareToIgnoreCase fold object.name itemName

def byIndex (itemFind item : Nat) : Option Bool := some (item = itemFind)

namespace Game

/-- Player.takeItemByName and takeItemByIndex -/
def takeItem (g : Game) (wanted : Nat → Option Bool) : Option (Option Nat × Game) :=
  match search wanted g.itemsCollection g.items with
  | none => none
  | some .missing => some (none, g)
  | some (.here item left) => some (some item, { g with items := left })
  | some (.below item itemsCollection) =>
    some (some item, { g with itemsCollection := itemsCollection })

/-- Room.takeItemByName of the room the player is in. -/
def takeItemFromRoom (g : Game) (wanted : Nat → Option Bool) : Option (Option Nat × Game) :=
  match g.rooms[g.room]? with
  | none => none
  | some room =>
    match search wanted g.itemsCollection room.items with
    | none => none
    | some .missing => some (none, g)
    | some (.here item left) =>
      some (some item, { g with rooms := g.rooms.set g.room { room with items := left } })
    | some (.below item itemsCollection) =>
      some (some item, { g with itemsCollection := itemsCollection })

/-- `items.add(item)` of the player. -/
def addItem (g : Game) (item : Nat) : Game := { g with items := g.items ++ [item] }

/-- Room.addItem of the room the player is in. -/
def addItemToRoom (g : Game) (item : Nat) : Option Game :=
  g.rooms[g.room]?.map fun room =>
    { g with rooms := g.rooms.set g.room { room with items := room.items ++ [item] } }

/-- The lists of the player, of the rooms and of the items. -/
def lists (g : Game) : List (List Nat) :=
  g.items :: (g.rooms.map Room.items ++ g.itemsCollection.map Item.items)

end Game

section searches

variable {take : Nat → Option (Option (Nat × List Item))} {wanted : Nat → Option Bool}
  {itemsCollection itemsCollection' : List Item} {items left : List Nat} {item this depth : Nat}

theorem takeFrom_here (found : takeFrom take wanted items = some (.here item left)) :
    wanted item = some true ∧ ∃ front back, items = front ++ item :: back ∧ left = front ++ back := by
  induction items generalizing left with
  | nil => cases found
  | cons first items ih =>
    rw [takeFrom] at found
    split at found
    · cases found
    · next same =>
      cases found
      exact ⟨same, [], items, rfl, rfl⟩
    · split at found
      · cases found
      · cases found
      · obtain ⟨result, rest, same⟩ := Option.map_eq_some_iff.mp found
        cases result with
        | missing => cases same
        | here item' left' =>
          cases same
          obtain ⟨same, front, back, rfl, rfl⟩ := ih rest
          exact ⟨same, first :: front, back, rfl, rfl⟩
        | below item' itemsCollection' => cases same

theorem takeFrom_below (found : takeFrom take wanted items = some (.below item itemsCollection')) :
    ∃ b ∈ items, take b = some (some (item, itemsCollection')) := by
  induction items with
  | nil => cases found
  | cons first items ih =>
    rw [takeFrom] at found
    split at found
    · cases found
    · cases found
    · split at found
      · cases found
      · next inner =>
        cases found
        exact ⟨first, List.mem_cons_self, inner⟩
      · obtain ⟨result, rest, same⟩ := Option.map_eq_some_iff.mp found
        cases result with
        | missing => cases same
        | here item' left' => cases same
        | below item' itemsCollection' =>
          cases same
          obtain ⟨b, mem, inner⟩ := ih rest
          exact ⟨b, List.mem_cons_of_mem _ mem, inner⟩

theorem takeFrom_total (each : ∀ b ∈ items, (wanted b).isSome ∧ (take b).isSome) :
    ∃ result, takeFrom take wanted items = some result := by
  induction items with
  | nil => exact ⟨_, rfl⟩
  | cons first items ih =>
    obtain ⟨compared, inner⟩ := each first List.mem_cons_self
    obtain ⟨same, compared⟩ := Option.isSome_iff_exists.mp compared
    obtain ⟨inside, inner⟩ := Option.isSome_iff_exists.mp inner
    obtain ⟨result, rest⟩ := ih fun b mem => each b (List.mem_cons_of_mem _ mem)
    rw [takeFrom, compared, inner, rest]
    cases same with
    | true => exact ⟨_, rfl⟩
    | false =>
      cases inside with
      | none => exact ⟨_, rfl⟩
      | some found => exact ⟨_, rfl⟩

/-- An item is taken out of the list of another one. -/
def TakenInside (wanted : Nat → Option Bool) (itemsCollection : List Item) (item : Nat)
    (itemsCollection' : List Item) : Prop :=
  wanted item = some true ∧ ∃ (this : Nat) (object : Item) (front back : List Nat),
    itemsCollection[this]? = some object ∧ object.items = front ++ item :: back ∧
    itemsCollection' = itemsCollection.set this { object with items := front ++ back }

theorem takeIn_found
    (found : takeIn wanted itemsCollection depth this = some (some (item, itemsCollection'))) :
    TakenInside wanted itemsCollection item itemsCollection' := by
  induction depth generalizing this with
  | zero => cases found
  | succ depth ih =>
    rw [takeIn] at found
    split at found
    · cases found
    · next object position =>
      split at found
      · cases found
      · cases found
      · next item' left here =>
        cases found
        obtain ⟨same, front, back, split_, rfl⟩ := takeFrom_here here
        exact ⟨same, this, object, front, back, position, split_, rfl⟩
      · next item' collection below =>
        cases found
        obtain ⟨b, -, inner⟩ := takeFrom_below below
        exact ih inner

/-- The ids in the lists of the items are ids of items, and `rank` gets smaller on the way inside. -/
structure Nested (rank : Nat → Nat) (itemsCollection : List Item) : Prop where
  inside : ∀ (this : Nat) (object : Item), itemsCollection[this]? = some object →
    ∀ b ∈ object.items, b < itemsCollection.length
  ranked : ∀ (this : Nat) (object : Item), itemsCollection[this]? = some object →
    ∀ b ∈ object.items, rank b < rank this

/-- Names can be looked up, and a comparison of ids needs no name. -/
def Compares (wanted : Nat → Option Bool) (itemsCollection : List Item) : Prop :=
  ∀ b < itemsCollection.length, (wanted b).isSome

theorem byName_compares (fold : Char → Char) (itemsCollection : List Item) (itemName : Text) :
    Compares (byName fold itemsCollection itemName) itemsCollection := by
  intro b inside
  rw [byName, List.getElem?_eq_getElem inside]
  rfl

theorem byIndex_compares (itemFind : Nat) (itemsCollection : List Item) :
    Compares (byIndex itemFind) itemsCollection := fun _ _ => rfl

variable {rank : Nat → Nat}

theorem takeIn_total (nested : Nested rank itemsCollection) (compares : Compares wanted itemsCollection)
    (inside : this < itemsCollection.length) (bound : rank this < depth) :
    (takeIn wanted itemsCollection depth this).isSome := by
  induction depth generalizing this with
  | zero => exact absurd bound (Nat.not_lt_zero _)
  | succ depth ih =>
    obtain ⟨object, position⟩ : ∃ object, itemsCollection[this]? = some object :=
      ⟨_, List.getElem?_eq_getElem inside⟩
    obtain ⟨result, total⟩ := @takeFrom_total (takeIn wanted itemsCollection depth) wanted
      object.items fun b mem => by
        have below := nested.inside this object position b mem
        have less := nested.ranked this object position b mem
        exact ⟨compares b below, ih below (by omega)⟩
    rw [takeIn, position]
    dsimp only
    rw [total]
    cases result <;> rfl

theorem search_total (nested : Nested rank itemsCollection) (compares : Compares wanted itemsCollection)
    (bound : ∀ b, rank b ≤ itemsCollection.length) (inside : ∀ b ∈ items, b < itemsCollection.length) :
    ∃ result, search wanted itemsCollection items = some result :=
  takeFrom_total fun b mem => ⟨compares b (inside b mem),
    takeIn_total nested compares (inside b mem) (Nat.lt_succ_of_le (bound b))⟩

end searches

section games

variable {g g' : Game} {wanted : Nat → Option Bool} {item : Nat}

def Room.bare (room : Room) : Room := { room with items := [] }

/-- What moving items does not change, and no item gets new ones inside. -/
structure Kept (g g' : Game) : Prop where
  bare : g'.rooms.map Room.bare = g.rooms.map Room.bare
  room : g'.room = g.room
  used : g'.used = g.used
  length : g'.itemsCollection.length = g.itemsCollection.length
  contents : ∀ (this : Nat) (object' : Item), g'.itemsCollection[this]? = some object' →
    ∃ object, g.itemsCollection[this]? = some object ∧ ∀ b ∈ object'.items, b ∈ object.items

theorem Kept.refl (g : Game) : Kept g g :=
  ⟨rfl, rfl, rfl, rfl, fun _ object found => ⟨object, found, fun _ mem => mem⟩⟩

theorem Kept.trans {g'' : Game} (first : Kept g g') (second : Kept g' g'') : Kept g g'' := by
  refine ⟨second.bare.trans first.bare, second.room.trans first.room, second.used.trans first.used,
    second.length.trans first.length, fun this object'' found => ?_⟩
  obtain ⟨object', found', sub'⟩ := second.contents this object'' found
  obtain ⟨object, found, sub⟩ := first.contents this object' found'
  exact ⟨object, found, fun b mem => sub b (sub' b mem)⟩

theorem getElem?_lists_room {r : Nat} {room : Room} (found : g.rooms[r]? = some room) :
    g.lists[r + 1]? = some room.items := by
  have inside : r < g.rooms.length := (List.getElem?_eq_some_iff.mp found).1
  rw [Game.lists, List.getElem?_cons_succ, List.getElem?_append_left (by simpa using inside),
    List.getElem?_map, found]
  rfl

theorem lists_set_room {r : Nat} (room : Room) (inside : r < g.rooms.length) (list : List Nat) :
    Game.lists { g with rooms := g.rooms.set r { room with items := list } } =
      g.lists.set (r + 1) list := by
  rw [Game.lists, Game.lists, List.set_cons_succ, List.set_append_left _ _ (by simpa using inside),
    List.map_set]

theorem getElem?_lists_item {this : Nat} {object : Item}
    (found : g.itemsCollection[this]? = some object) :
    g.lists[g.rooms.length + this + 1]? = some object.items := by
  rw [Game.lists, List.getElem?_cons_succ, List.getElem?_append_right (by simp), List.getElem?_map,
    List.length_map, Nat.add_sub_cancel_left, found]
  rfl

theorem lists_set_item (g : Game) (this : Nat) (object : Item) (list : List Nat) :
    Game.lists { g with itemsCollection := g.itemsCollection.set this { object with items := list } } =
      g.lists.set (g.rooms.length + this + 1) list := by
  rw [Game.lists, Game.lists, List.set_cons_succ, List.set_append_right _ _ (by simp),
    List.length_map, Nat.add_sub_cancel_left, List.map_set]

theorem map_bare_set {rooms : List Room} {r : Nat} {room : Room} (found : rooms[r]? = some room)
    (list : List Nat) :
    (rooms.set r { room with items := list }).map Room.bare = rooms.map Room.bare := by
  obtain ⟨inside, same⟩ := List.getElem?_eq_some_iff.mp found
  subst same
  apply List.ext_getElem
  · rw [List.length_map, List.length_map, List.length_set]
  · intro i _ _
    rw [List.getElem_map, List.getElem_map, List.getElem_set]
    split
    · next same =>
      subst same
      rfl
    · rfl

theorem TakenInside.taken {itemsCollection' : List Item}
    (inside : TakenInside wanted g.itemsCollection item itemsCollection') :
    Taken g.lists item (Game.lists { g with itemsCollection := itemsCollection' }) ∧
      Kept g { g with itemsCollection := itemsCollection' } := by
  obtain ⟨-, this, object, front, back, found, split_, rfl⟩ := inside
  refine ⟨⟨_, front, back, ?_, lists_set_item g this object _⟩, rfl, rfl, rfl, List.length_set,
    fun i object' found' => ?_⟩
  · rw [getElem?_lists_item found, split_]
  · rw [List.getElem?_set] at found'
    split at found'
    · next same =>
      subst same
      split at found'
      · obtain rfl := Option.some.inj found'
        refine ⟨object, found, fun b mem => ?_⟩
        rw [split_]
        rcases List.mem_append.mp mem with early | late
        · exact List.mem_append_left _ early
        · exact List.mem_append_right _ (List.mem_cons_of_mem _ late)
      · cases found'
    · exact ⟨object', found', fun _ mem => mem⟩

/-- A list that an item is taken out of, and the game it is taken from. -/
theorem takeItem_found (found : g.takeItem wanted = some (some item, g')) :
    wanted item = some true ∧ Taken g.lists item g'.lists ∧ Kept g g' := by
  rw [Game.takeItem] at found
  split at found
  · cases found
  · cases found
  · next item' left here =>
    cases found
    obtain ⟨same, front, back, split_, rfl⟩ := takeFrom_here here
    refine ⟨same, ⟨0, front, back, ?_, rfl⟩, ?_⟩
    · rw [Game.lists, List.getElem?_cons_zero, split_]
    · exact ⟨rfl, rfl, rfl, rfl, fun _ object found => ⟨object, found, fun _ mem => mem⟩⟩
  · next item' collection below =>
    cases found
    obtain ⟨b, -, inner⟩ := takeFrom_below below
    have inside := takeIn_found inner
    exact ⟨inside.1, inside.taken⟩

theorem takeItem_missing (missing : g.takeItem wanted = some (none, g')) : g' = g := by
  rw [Game.takeItem] at missing
  split at missing
  · cases missing
  · cases missing
    rfl
  · cases missing
  · cases missing

theorem takeItemFromRoom_found (found : g.takeItemFromRoom wanted = some (some item, g')) :
    Taken g.lists item g'.lists ∧ Kept g g' := by
  rw [Game.takeItemFromRoom] at found
  split at found
  · cases found
  · next room position =>
    split at found
    · cases found
    · cases found
    · next item' left here =>
      cases found
      obtain ⟨-, front, back, split_, rfl⟩ := takeFrom_here here
      have inside : g.room < g.rooms.length := (List.getElem?_eq_some_iff.mp position).1
      refine ⟨⟨g.room + 1, front, back, ?_, lists_set_room room inside _⟩, map_bare_set position _,
        rfl, rfl, rfl, fun _ object found => ⟨object, found, fun _ mem => mem⟩⟩
      rw [getElem?_lists_room position, split_]
    · next item' collection below =>
      cases found
      obtain ⟨b, -, inner⟩ := takeFrom_below below
      exact (takeIn_found inner).taken

theorem takeItemFromRoom_missing (missing : g.takeItemFromRoom wanted = some (none, g')) : g' = g := by
  rw [Game.takeItemFromRoom] at missing
  split at missing
  · cases missing
  · split at missing
    · cases missing
    · cases missing
      rfl
    · cases missing
    · cases missing

theorem addItem_put (g : Game) (item : Nat) :
    Put g.lists item (g.addItem item).lists ∧ Kept g (g.addItem item) :=
  ⟨⟨0, g.items, rfl, rfl⟩, rfl, rfl, rfl, rfl,
    fun _ object found => ⟨object, found, fun _ mem => mem⟩⟩

theorem addItemToRoom_put (added : g.addItemToRoom item = some g') :
    Put g.lists item g'.lists ∧ Kept g g' := by
  obtain ⟨room, position, rfl⟩ := Option.map_eq_some_iff.mp added
  have inside : g.room < g.rooms.length := (List.getElem?_eq_some_iff.mp position).1
  exact ⟨⟨g.room + 1, room.items, getElem?_lists_room position, lists_set_room room inside _⟩,
    map_bare_set position _, rfl, rfl, rfl, fun _ object found => ⟨object, found, fun _ mem => mem⟩⟩

end games

end Lab2
