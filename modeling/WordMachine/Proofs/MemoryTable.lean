import Mathlib.Data.List.GetD
import Mathlib.Logic.Function.Basic
import WordMachine.Proofs.SnapshotFormat

/-!
# Memory as a table

A memory is a table of numbers of sixteen bits, one for each of 32776 addresses, the last eight of
which are the registers. Whatever it is asked for, one request after another, it answers as the
table does: a request for what the table has takes its whole effect there and nowhere else, and any
other request is refused and changes nothing.
-/

namespace WordMachine

namespace Memory

namespace Request

/-- Whether the table has what a request asks for. -/
def Allowed : Request → Prop
  | .read address | .write address _ => 0 ≤ address ∧ address ≤ 32775
  | .readRegister index | .writeRegister index _ => 0 ≤ index ∧ index ≤ 7
  | .load image base => 0 ≤ base ∧ base + image.length ≤ 32768
  | .replace values => values.length = 32776

instance : DecidablePred Allowed
  | .read address | .write address _ => inferInstanceAs (Decidable (0 ≤ address ∧ address ≤ 32775))
  | .readRegister index | .writeRegister index _ =>
      inferInstanceAs (Decidable (0 ≤ index ∧ index ≤ 7))
  | .load image base => inferInstanceAs (Decidable (0 ≤ base ∧ base + image.length ≤ 32768))
  | .replace values => inferInstanceAs (Decidable (values.length = 32776))

/-- What is said about a request for what the table does not have. -/
def refusal : Request → RequestError
  | .read address | .write address _ => .fault (.addressOutOfRange address)
  | .readRegister _ | .writeRegister _ _ => .noRegister
  | .load image base => .load (.doesNotFit image.length base)
  | .replace values => .load (.wrongSize values.length)

end Request

/-- The numbers at all addresses; only those at 0 to 32775 count. -/
abbrev Table := Int → Int

namespace Table

/-- The table with values written from a base address on. -/
def overlay (f : Table) (base : Int) (values : List Int) : Table := fun address =>
  if base ≤ address ∧ address < base + values.length then
    values.getD (address - base).toNat 0 % 65536
  else f address

def after (f : Table) : Request → Table
  | .read _ | .readRegister _ => f
  | .write address value => Function.update f address (value % 65536)
  | .writeRegister index value => Function.update f (32768 + index) (value % 65536)
  | .load image base => f.overlay base image
  | .replace values => f.overlay 0 values

def number? (f : Table) : Request → Option Int
  | .read address => some (f address)
  | .readRegister index => some (f (32768 + index))
  | .load image _ => some image.length
  | .write _ _ | .writeRegister _ _ | .replace _ => none

def serve (f : Table) (r : Request) : Table × Reply :=
  if r.Allowed then (f.after r, .ok (f.number? r)) else (f, .error r.refusal)

end Table

/-- What comes of some requests, one after another, and all the replies. -/
def serveAll {S : Type} (serve : S → Request → S × Reply) (s : S) : List Request → S × List Reply
  | [] => (s, [])
  | r :: rs =>
      let last := serveAll serve (serve s r).1 rs
      (last.1, (serve s r).2 :: last.2)

/-- The table that a memory is. -/
def table (m : Memory) : Table := fun address =>
  if 0 ≤ address then ((m.unitAt address.toNat).toNat : Int) else 0

section Cells

variable {m : Memory}

theorem unitAt_cell (m : Memory) (c : Cell) : m.unitAt c = m.get c := dif_pos c.isLt

theorem unitAt_of_outside {n : Nat} (outside : numCells ≤ n) : m.unitAt n = 0 :=
  dif_neg (Nat.not_lt.mpr outside)

theorem unitAt_set (m : Memory) (c : Cell) (w : Word) (n : Nat) :
    (m.set c w).unitAt n = if n = c then w else m.unitAt n := by
  unfold unitAt
  by_cases inside : n < numCells
  · rw [dif_pos inside, dif_pos inside]
    split
    · next same =>
        obtain rfl : c = ⟨n, inside⟩ := Fin.ext same.symm
        exact get_set_self m _ w
    · next other => exact get_set_of_ne m w fun same => other (same ▸ rfl)
  · rw [dif_neg inside, dif_neg inside, if_neg]
    rintro rfl
    exact inside c.isLt

/-- Filling changes the cells from the base on, as many as there are units. -/
theorem unitAt_fill {base : Nat} {ws : List Word} (fits : base + ws.length ≤ numCells) (n : Nat) :
    (m.fill base ws).unitAt n =
      if base ≤ n ∧ n < base + ws.length then ws.getD (n - base) 0 else m.unitAt n := by
  induction ws generalizing m base with
  | nil =>
      rw [fill, if_neg]
      rintro ⟨least, below⟩
      exact Nat.not_lt.mpr least below
  | cons w ws ih =>
      rw [List.length_cons] at fits
      rw [fill, dif_pos (by omega), ih (by omega), unitAt_set, List.length_cons]
      -- The first unit is stored before the others, none of which goes to the same cell.
      by_cases first : n = base
      · rw [if_neg (by omega), if_pos first, if_pos (by omega), first, Nat.sub_self,
          List.getD_cons_zero]
      · rw [if_neg first]
        by_cases later : base + 1 ≤ n ∧ n < base + 1 + ws.length
        · rw [if_pos later, if_pos (by omega), show n - base = n - (base + 1) + 1 by omega,
            List.getD_cons_succ]
        · rw [if_neg later, if_neg (by omega)]

/-- As many units as there are addresses can be loaded. -/
theorem load_units (m : Memory) {words : List Word} (fits : words.length ≤ numAddresses) :
    m.load (words.map fun w => (w.toNat : Int)) 0 = .ok (m.fill 0 words) := by
  rw [load, List.length_map, if_pos (by omega), Word.map_ofInt_toNat, Int.toNat_zero]

theorem exists_ofValues {values : List Int} (size : values.length = numCells) :
    ∃ m, ofValues values = .ok m ∧ ∀ n < numCells, m.unitAt n = Word.ofInt (values.getD n 0) := by
  refine ⟨_, dif_pos size, ?_⟩
  intro n inside
  have bound : n < values.length := size ▸ inside
  simp [unitAt, get, inside, bound]

/-- All cells, in the order of their addresses. -/
theorem toList_eq (m : Memory) : m.toList = (List.range numCells).map m.unitAt := by
  apply List.ext_getElem
  · rw [length_toList, List.length_map, List.length_range]
  · intro n inside inside'
    have bound : n < numCells := m.length_toList ▸ inside
    rw [List.getElem_map, List.getElem_range]
    simp [toList, unitAt, get, bound]

end Cells

section Tables

variable {m m' : Memory}

theorem table_cell (m : Memory) (c : Cell) : m.table (c : Nat) = (m.get c).toNat := by
  rw [table, if_pos (Int.natCast_nonneg _), Int.toNat_natCast, unitAt_cell]

theorem table_bounds (m : Memory) (address : Int) :
    0 ≤ m.table address ∧ m.table address ≤ 65535 := by
  unfold table
  split
  · have := (m.unitAt address.toNat).toNat_lt
    omega
  · omega

theorem table_set (m : Memory) (c : Cell) (value : Int) :
    (m.set c (Word.ofInt value)).table = Function.update m.table (c : Nat) (value % 65536) := by
  funext address
  rw [Function.update_apply]
  unfold table
  by_cases start : 0 ≤ address
  · rw [if_pos start, if_pos start, unitAt_set]
    by_cases same : address = (c : Nat)
    · rw [if_pos same, if_pos (by omega), Word.toNat_ofInt]
    · rw [if_neg same, if_neg (by omega)]
  · rw [if_neg start, if_neg start, if_neg (by omega)]

/-- The table of a memory whose cells are known. -/
theorem table_eq_overlay {base : Int} {values : List Int} (start : 0 ≤ base)
    (covered : ∀ n : Nat, base ≤ n → n < base + values.length →
      m'.unitAt n = Word.ofInt (values.getD (n - base).toNat 0))
    (kept : ∀ n : Nat, ¬(base ≤ n ∧ n < base + values.length) → m'.unitAt n = m.unitAt n) :
    m'.table = m.table.overlay base values := by
  funext address
  unfold Table.overlay
  by_cases low : 0 ≤ address
  · obtain ⟨n, rfl⟩ := Int.eq_ofNat_of_zero_le low
    simp only [table, low, if_true, Int.toNat_natCast]
    by_cases among : base ≤ n ∧ n < base + values.length
    · rw [if_pos among, covered n among.1 among.2, Word.toNat_ofInt]
    · rw [if_neg among, kept n among]
  · simp only [table, low, if_false]
    rw [if_neg (by omega)]

theorem table_fill (m : Memory) {base : Int} {image : List Int} (start : 0 ≤ base)
    (fits : base + image.length ≤ 32768) :
    (m.fill base.toNat (image.map Word.ofInt)).table = m.table.overlay base image := by
  have cells : numCells = 32776 := rfl
  have filled (n : Nat) := @unitAt_fill m base.toNat (image.map Word.ofInt)
    (by rw [List.length_map]; omega) n
  simp only [List.length_map] at filled
  apply table_eq_overlay start
  · intro n least below
    have place : (n - base).toNat = n - base.toNat := by omega
    rw [filled, if_pos (by omega), place]
    exact List.getD_map image 0 Word.ofInt
  · intro n other
    rw [filled, if_neg (by omega)]

theorem table_replaced {values : List Int} (m : Memory) (size : values.length = numCells)
    (cells : ∀ n < numCells, m'.unitAt n = Word.ofInt (values.getD n 0)) :
    m'.table = m.table.overlay 0 values := by
  apply table_eq_overlay (Int.le_refl 0)
  · intro n _ below
    rw [cells n (by omega), Int.sub_zero, Int.toNat_natCast]
  · intro n other
    rw [unitAt_of_outside (by omega), unitAt_of_outside (by omega)]

theorem locate_of_inside {address : Int} (inside : 0 ≤ address ∧ address ≤ 32775) :
    ∃ c : Cell, locate address = .ok c ∧ ((c : Nat) : Int) = address := by
  have cells : numCells = 32776 := rfl
  have bound : address.toNat < numCells := by omega
  have place : ((address.toNat : Nat) : Int) = address := Int.toNat_of_nonneg inside.1
  exact ⟨⟨address.toNat, bound⟩, locate_eq_ok_iff.mpr place.symm, place⟩

theorem locate_of_outside {address : Int} (outside : ¬(0 ≤ address ∧ address ≤ 32775)) :
    locate address = .error (.addressOutOfRange address) := by
  have cells : (numCells : Int) = 32776 := rfl
  unfold locate
  rw [dif_neg (by omega)]

theorem registerCell?_of_inside {index : Int} (inside : 0 ≤ index ∧ index ≤ 7) :
    ∃ c : Cell, registerCell? index = some c ∧ ((c : Nat) : Int) = 32768 + index := by
  have registers : (numRegisters : Int) = 8 := rfl
  unfold registerCell?
  rw [dif_pos (by omega)]
  refine ⟨_, rfl, ?_⟩
  change ((32768 + index.toNat : Nat) : Int) = 32768 + index
  omega

theorem registerCell?_of_outside {index : Int} (outside : ¬(0 ≤ index ∧ index ≤ 7)) :
    registerCell? index = none := by
  have registers : (numRegisters : Int) = 8 := rfl
  unfold registerCell?
  rw [dif_neg (by omega)]

theorem serve_of_ok {r : Request} {number : Option Int} (done : m.respond r = .ok (m', number)) :
    m.serve r = (m', .ok number) := by
  rw [serve, done]

theorem serve_of_error {r : Request} {e : RequestError} (refused : m.respond r = .error e) :
    m.serve r = (m, .error e) := by
  rw [serve, refused]

/-- A request for what the table has is carried out there, and nowhere else. -/
theorem serve_of_allowed {r : Request} (m : Memory) (allowed : r.Allowed) :
    (m.serve r).1.table = m.table.after r ∧ (m.serve r).2 = .ok (m.table.number? r) := by
  cases r with
  | read address =>
      obtain ⟨c, found, rfl⟩ := locate_of_inside allowed
      have done : m.respond (.read (c : Nat)) = .ok (m, some ((m.get c).toNat : Int)) := by
        rw [respond, read, found]
        rfl
      rw [serve_of_ok done, Table.number?, table_cell]
      exact ⟨rfl, rfl⟩
  | write address value =>
      obtain ⟨c, found, rfl⟩ := locate_of_inside allowed
      have done : m.respond (.write (c : Nat) value) = .ok (m.set c (Word.ofInt value), none) := by
        rw [respond, write, found]
        rfl
      rw [serve_of_ok done]
      exact ⟨table_set m c value, rfl⟩
  | readRegister index =>
      obtain ⟨c, found, place⟩ := registerCell?_of_inside allowed
      have done : m.respond (.readRegister index) = .ok (m, some ((m.get c).toNat : Int)) := by
        rw [respond, found]
      rw [serve_of_ok done, Table.number?, ← place, table_cell]
      exact ⟨rfl, rfl⟩
  | writeRegister index value =>
      obtain ⟨c, found, place⟩ := registerCell?_of_inside allowed
      have done : m.respond (.writeRegister index value) =
          .ok (m.set c (Word.ofInt value), none) := by
        rw [respond, found]
      rw [serve_of_ok done, Table.after, ← place]
      exact ⟨table_set m c value, rfl⟩
  | load image base =>
      obtain ⟨start, fits⟩ := allowed
      have done : m.respond (.load image base) =
          .ok (m.fill base.toNat (image.map Word.ofInt), some (image.length : Int)) := by
        rw [respond, load, if_pos ⟨start, fits⟩]
        rfl
      rw [serve_of_ok done]
      exact ⟨table_fill m start fits, rfl⟩
  | replace values =>
      obtain ⟨m', given, cells⟩ := exists_ofValues allowed
      have done : m.respond (.replace values) = .ok (m', none) := by
        rw [respond, given]
        rfl
      rw [serve_of_ok done]
      exact ⟨table_replaced m allowed cells, rfl⟩

/-- A request for what the table does not have is refused. -/
theorem serve_of_not_allowed {r : Request} (m : Memory) (other : ¬r.Allowed) :
    m.serve r = (m, .error r.refusal) := by
  apply serve_of_error
  cases r with
  | read address =>
      rw [respond, read, locate_of_outside other]
      rfl
  | write address value =>
      rw [respond, write, locate_of_outside other]
      rfl
  | readRegister index =>
      rw [respond, registerCell?_of_outside other]
      rfl
  | writeRegister index value =>
      rw [respond, registerCell?_of_outside other]
      rfl
  | load image base =>
      have outside : ¬(0 ≤ base ∧ base + image.length ≤ (numAddresses : Int)) := other
      rw [respond, load, if_neg outside]
      rfl
  | replace values =>
      have wrong : ¬values.length = numCells := other
      rw [respond, ofValues, dif_neg wrong]
      rfl

theorem serve_table (m : Memory) (r : Request) :
    (m.serve r).1.table = (m.table.serve r).1 ∧ (m.serve r).2 = (m.table.serve r).2 := by
  unfold Table.serve
  by_cases allowed : r.Allowed
  · rw [if_pos allowed]
    exact serve_of_allowed m allowed
  · rw [if_neg allowed, serve_of_not_allowed m allowed]
    exact ⟨rfl, rfl⟩

/-- Request for request, the memory stays the table that it is. -/
theorem serveAll_table (m : Memory) (requests : List Request) :
    (serveAll serve m requests).1.table = (serveAll Table.serve m.table requests).1 ∧
      (serveAll serve m requests).2 = (serveAll Table.serve m.table requests).2 := by
  induction requests generalizing m with
  | nil => exact ⟨rfl, rfl⟩
  | cons r rs ih =>
      obtain ⟨after, reply⟩ := m.serve_table r
      have later := ih (m.serve r).1
      rw [after] at later
      simp only [serveAll, reply, later, and_self]

theorem serve_fails_iff (m : Memory) (r : Request) :
    (∃ e, (m.serve r).2 = .error e) ↔ ¬r.Allowed := by
  by_cases allowed : r.Allowed
  · rw [(serve_of_allowed m allowed).2]
    simp [allowed]
  · rw [serve_of_not_allowed m allowed]
    simp [allowed]

/-- An image never reaches the registers. -/
theorem table_load_register (m : Memory) (image : List Int) (base : Int) (index : Fin 8) :
    (m.serve (.load image base)).1.table (32768 + (index : Nat)) =
      m.table (32768 + (index : Nat)) := by
  by_cases allowed : (Request.load image base).Allowed
  · have fits : 0 ≤ base ∧ base + image.length ≤ 32768 := allowed
    have beyond : ¬(base ≤ 32768 + ((index : Nat) : Int) ∧
        32768 + ((index : Nat) : Int) < base + image.length) := by
      omega
    rw [(serve_of_allowed m allowed).1, Table.after, Table.overlay, if_neg beyond]
  · rw [serve_of_not_allowed m allowed]

theorem toList_table (m : Memory) :
    (m.toList.map fun w => (w.toNat : Int)) =
      (List.range numCells).map fun n : Nat => m.table n := by
  rw [toList_eq, List.map_map]
  apply List.map_congr_left
  intro n _
  rw [table, if_pos (Int.natCast_nonneg n), Int.toNat_natCast, Function.comp_apply]

/-- Whatever a memory is asked for, one request after another, its replies are those of the table
that it is, and its cells are the 32776 numbers of that table then, each of sixteen bits. A request
fails exactly when the table has not what it asks for, and then it changes nothing; and an image
never reaches the registers. -/
theorem requests_served_by_table (m : Memory) (requests : List Request) :
    let last := (serveAll serve m requests).1
    let tabled := serveAll Table.serve m.table requests
    (serveAll serve m requests).2 = tabled.2 ∧
    last.table = tabled.1 ∧
    last.toList.length = 32776 ∧
    (last.toList.map fun w => (w.toNat : Int)) =
      (List.range numCells).map (fun n : Nat => tabled.1 n) ∧
    (∀ address : Int, 0 ≤ tabled.1 address ∧ tabled.1 address ≤ 65535) ∧
    (∀ r : Request, ((∃ e, (last.serve r).2 = .error e) ↔ ¬r.Allowed) ∧
      (r.Allowed ∨ (last.serve r).1 = last)) ∧
    ∀ (image : List Int) (base : Int) (index : Fin 8),
      (last.serve (.load image base)).1.table (32768 + (index : Nat)) =
        last.table (32768 + (index : Nat)) := by
  intro last tabled
  obtain ⟨same, replies⟩ := m.serveAll_table requests
  have cells : last.table = tabled.1 := same
  refine ⟨replies, cells, last.length_toList, ?_, ?_, ?_, last.table_load_register⟩
  · rw [← cells]
    exact last.toList_table
  · intro address
    rw [← cells]
    exact last.table_bounds address
  · intro r
    refine ⟨last.serve_fails_iff r, ?_⟩
    by_cases allowed : r.Allowed
    · exact .inl allowed
    · exact .inr (congrArg Prod.fst (serve_of_not_allowed last allowed))

end Tables

end Memory

end WordMachine
