/-
  File:      Chip8/Proofs/Memory/Dump.lean
  Subject:   the dump of a memory can be read back

  * `toList_dump`, `splitOn_dump`: the dump is made of its lines and is cut into them again;
  * `length_dumpLine`, `take_dumpLine`, `column_dumpLine`: how long a line is, how it begins, and
    what stands in its columns;
  * `readDump`: the bytes read back from a text, two digits for each, by line and column;
    `readDump_dump`: those of a dump are the bytes of the memory;
  * `dump_shows_all`: all of this together, so no two memories have the same dump.
-/
import Chip8.Memory.Dump
import Chip8.Proofs.Text.ReadBack

namespace Chip8

/-! ## 1. Pieces of one width -/

/-- Whole pieces in front are dropped as pieces. -/
theorem drop_flatMap {α β : Type} {f : α → List β} {width : Nat} (hf : ∀ a, (f a).length = width)
    (pieces : List α) (k : Nat) :
    (pieces.flatMap f).drop (width * k) = (pieces.drop k).flatMap f := by
  induction pieces generalizing k with
  | nil => simp
  | cons first rest ih =>
    cases k with
    | zero => rfl
    | succ k =>
      rw [List.flatMap_cons, List.drop_succ_cons, ← ih, Nat.mul_succ, Nat.add_comm, ← List.drop_drop,
        ← hf first, List.drop_left]

namespace Memory

variable {m n : Memory}

/-! ## 2. Lines -/

/-- The bytes of a line, without its address. -/
def dumpBytes (m : Memory) (line : Nat) : List Char :=
  (List.range 16).flatMap fun column => m.dumpByte (16 * line + column)

theorem dumpLine_eq (m : Memory) (line : Nat) :
    m.dumpLine line = (Hex.fixed 3 (16 * line) ++ [':']) ++ m.dumpBytes line := by
  rw [dumpLine, dumpBytes, List.append_assoc, List.singleton_append]

theorem length_dumpLine (m : Memory) (line : Nat) : (m.dumpLine line).length = 52 := by
  have hbytes : (m.dumpBytes line).length = 48 := by
    simp [dumpBytes, List.length_flatMap, List.map_const']
  rw [dumpLine_eq, List.length_append, List.length_append, Hex.length_fixed, hbytes]
  rfl

theorem newline_not_mem_dumpLine (m : Memory) (line : Nat) : '\n' ∉ m.dumpLine line := by
  intro h
  rcases List.mem_append.mp h with haddress | hbytes
  · exact Hex.not_mem_fixed (by decide) _ _ haddress
  · rcases List.mem_cons.mp hbytes with hcolon | hbyte
    · cases hcolon
    · obtain ⟨column, -, hcolumn⟩ := List.mem_flatMap.mp hbyte
      rcases List.mem_cons.mp hcolumn with hblank | hdigit
      · cases hblank
      · exact Hex.not_mem_fixed (by decide) _ _ hdigit

theorem take_dumpLine (m : Memory) (line : Nat) :
    (m.dumpLine line).take 4 = Hex.fixed 3 (16 * line) ++ [':'] := by
  rw [dumpLine_eq]
  exact List.take_left' (by simp)

/-- **Behind the address** there are three columns for each byte: a blank and its two digits. -/
theorem column_dumpLine (m : Memory) (line : Nat) {column : Nat} (h : column < 16) :
    ((m.dumpLine line).drop (4 + 3 * column)).take 3 = m.dumpByte (16 * line + column) := by
  have hrange : (List.range 16).drop column = column :: (List.range 16).drop (column + 1) := by
    rw [List.drop_eq_getElem_cons (by simpa using h), List.getElem_range]
  rw [dumpLine_eq, ← List.drop_drop, List.drop_left' (by simp), dumpBytes,
    drop_flatMap (fun place => m.length_dumpByte _), hrange, List.flatMap_cons]
  exact List.take_left' (m.length_dumpByte _)

theorem getElem?_dumpLine (m : Memory) (line : Nat) {column i : Nat} (h : column < 16)
    (hi : i < 3) :
    (m.dumpLine line)[4 + 3 * column + i]? = (m.dumpByte (16 * line + column))[i]? := by
  rw [← m.column_dumpLine line h, List.getElem?_take_of_lt hi, List.getElem?_drop]

/-- A byte in its columns: a blank, and its upper and its lower digit. -/
theorem dumpByte_eq (m : Memory) (place : Nat) :
    m.dumpByte place = [' ', Hex.digit ((m.get (UInt16.ofNat place)).toNat / 16),
      Hex.digit ((m.get (UInt16.ofNat place)).toNat % 16)] := by
  have hbyte := (m.get (UInt16.ofNat place)).toNat_lt
  have hupper : (m.get (UInt16.ofNat place)).toNat / 16 % 16 =
      (m.get (UInt16.ofNat place)).toNat / 16 := Nat.mod_eq_of_lt (by omega)
  simp [dumpByte, Hex.fixed, hupper]

/-! ## 3. The whole text -/

theorem toList_dump (m : Memory) : m.dump.toList = m.dumpLines.flatMap (· ++ ['\n']) := by
  rw [dump, String.toList_ofList]

theorem newline_not_mem_of_mem {line : List Char} (h : line ∈ m.dumpLines) : '\n' ∉ line := by
  obtain ⟨k, -, rfl⟩ := List.mem_map.mp h
  exact m.newline_not_mem_dumpLine k

/-- **Cut at its newlines** a dump gives its lines, and nothing behind the last one. -/
theorem splitOn_dump (m : Memory) : m.dump.toList.splitOn '\n' = m.dumpLines ++ [[]] := by
  have hlines : ∀ line ∈ m.dumpLines ++ [[]], '\n' ∉ line := by
    intro line hline
    rcases List.mem_append.mp hline with h | h
    · exact newline_not_mem_of_mem h
    · rw [List.mem_singleton.mp h]
      exact List.not_mem_nil
  rw [toList_dump, flatMap_newline, List.splitOn_intercalate '\n' hlines (by simp)]

theorem getElem?_dumpLines (m : Memory) {k : Nat} (h : k < 256) :
    m.dumpLines[k]? = some (m.dumpLine k) := by
  simp [dumpLines, h]

/-! ## 4. Reading a dump -/

/-- The byte that the lines of a dump show for a place: behind a blank, two digits in line
    `place / 16`. -/
def shown? (lines : List (List Char)) (place : Nat) : Option UInt8 :=
  lines[place / 16]?.bind fun line =>
    match (line.drop (4 + 3 * (place % 16))).take 3 with
    | ' ' :: digits => (Hex.value? digits).map UInt8.ofNat
    | _ => none

/-- The 4096 bytes that a text shows. -/
def readDump (text : String) : Option (List UInt8) :=
  (List.range 4096).mapM (shown? (text.toList.splitOn '\n'))

theorem get_ofNat_val (m : Memory) (address : Address) :
    m.get (UInt16.ofNat address.val) = m.bytes.get address := by
  have hlt := address.isLt
  have hsame : Address.ofWord (UInt16.ofNat address.val) = address := by
    apply Fin.ext
    show address.val % 65536 % 4096 = address.val
    omega
  show m.bytes.get (Address.ofWord (UInt16.ofNat address.val)) = m.bytes.get address
  rw [hsame]

theorem shown?_dump (m : Memory) {place : Nat} (h : place < 4096) :
    shown? (m.dump.toList.splitOn '\n') place = some (m.get (UInt16.ofNat place)) := by
  have hline : place / 16 < 256 := by omega
  have hlength : place / 16 < m.dumpLines.length := by simpa [dumpLines] using hline
  have hplace : 16 * (place / 16) + place % 16 = place := Nat.div_add_mod place 16
  have hbyte : (m.get (UInt16.ofNat place)).toNat % Nat.pow 16 2 = (m.get (UInt16.ofNat place)).toNat :=
    Nat.mod_eq_of_lt (m.get (UInt16.ofNat place)).toNat_lt
  rw [shown?, splitOn_dump, List.getElem?_append_left hlength, getElem?_dumpLines m hline,
    Option.bind_some, m.column_dumpLine _ (Nat.mod_lt place (by decide)), hplace, dumpByte]
  simp only [Hex.value?_fixed, hbyte, Option.map_some, UInt8.ofNat_toNat]

theorem toList_bytes (m : Memory) :
    m.bytes.toList = (List.range 4096).map fun place => m.get (UInt16.ofNat place) := by
  refine List.ext_getElem (by simp) fun place hplace _ => ?_
  have hlt : place < 4096 := by simpa using hplace
  rw [List.getElem_map, List.getElem_range, m.get_ofNat_val ⟨place, hlt⟩, Vector.getElem_toList]
  rfl

/-- **The bytes of a memory are read back from its dump.** -/
theorem readDump_dump (m : Memory) : readDump m.dump = some m.bytes.toList := by
  have hread : ((List.range 4096).map id).mapM (shown? (m.dump.toList.splitOn '\n')) =
      some ((List.range 4096).map fun place => m.get (UInt16.ofNat place)) :=
    mapM_map_eq_some _ fun place hplace => m.shown?_dump (List.mem_range.mp hplace)
  rw [List.map_id] at hread
  rw [readDump, hread, toList_bytes]

theorem dump_inj : m.dump = n.dump ↔ m = n := by
  constructor
  · intro h
    have hread := m.readDump_dump
    rw [h, readDump_dump] at hread
    exact Memory.ext (Vector.toList_inj.mp (Option.some.inj hread)).symm
  · rintro rfl
    rfl

/-! ## 5. The dump -/

/-- **A dump shows the whole memory.** It is 256 lines of 52 characters, each ended by a newline.
    Line `k` begins with the three digits of `16 * k` and a colon. The byte at an address stands in
    line `address / 16`, behind a blank, as two digits. Digits above nine are in upper case. The
    4096 bytes are read back from these places, so memories have the same dump only if they hold the
    same bytes. -/
theorem dump_shows_all (m : Memory) :
    (∀ n < 16, "0123456789ABCDEF".toList[n]? = some (Hex.digit n)) ∧
    (∃ lines : List (List Char), m.dump.toList = lines.flatMap (· ++ ['\n']) ∧
      lines.length = 256 ∧ (∀ row ∈ lines, row.length = 52 ∧ '\n' ∉ row) ∧
      (∀ k < 256, ∃ row, lines[k]? = some row ∧
        row.take 4 = Hex.fixed 3 (16 * k) ++ [':']) ∧
      ∀ address : Address, ∃ row, lines[address.val / 16]? = some row ∧
        let byte := (m.bytes.get address).toNat
        let column := address.val % 16
        row[4 + 3 * column]? = some ' ' ∧
          row[5 + 3 * column]? = some (Hex.digit (byte / 16)) ∧
          row[6 + 3 * column]? = some (Hex.digit (byte % 16))) ∧
    readDump m.dump = some m.bytes.toList ∧
    ∀ n : Memory, m.dump = n.dump ↔ m.bytes = n.bytes := by
  refine ⟨fun _ => Hex.getElem?_digits, ⟨m.dumpLines, m.toList_dump, by simp [dumpLines],
    fun line hline => ⟨?_, ?_⟩, fun k hk => ?_, fun address => ?_⟩, m.readDump_dump, fun n => ?_⟩
  · obtain ⟨k, -, rfl⟩ := List.mem_map.mp hline
    exact m.length_dumpLine k
  · exact newline_not_mem_of_mem hline
  · exact ⟨m.dumpLine k, m.getElem?_dumpLines hk, m.take_dumpLine k⟩
  · have hcolumn := Nat.mod_lt address.val (by decide : 0 < 16)
    have hplace : 16 * (address.val / 16) + address.val % 16 = address.val :=
      Nat.div_add_mod address.val 16
    have hbyte (i : Nat) (hi : i < 3) := m.getElem?_dumpLine (address.val / 16) hcolumn hi
    rw [hplace, dumpByte_eq, get_ofNat_val] at hbyte
    have hfirst : 5 + 3 * (address.val % 16) = 4 + 3 * (address.val % 16) + 1 := by omega
    have hsecond : 6 + 3 * (address.val % 16) = 4 + 3 * (address.val % 16) + 2 := by omega
    refine ⟨m.dumpLine (address.val / 16), m.getElem?_dumpLines (by omega), hbyte 0 (by decide),
      ?_, ?_⟩
    · rw [hfirst]
      exact hbyte 1 (by decide)
    · rw [hsecond]
      exact hbyte 2 (by decide)
  · rw [dump_inj, Memory.ext_iff]

end Memory

end Chip8
