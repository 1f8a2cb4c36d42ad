/-
**Separated values, with quotes where a cell needs them** (RFC 4180).

The alphabet is any type with four marks in it. A writer quotes the cells that contain a mark, and doubles
the quotes in them. A reader takes one letter after the other; a row may end with a newline, or with a
carriage return and a newline, and the last row need not end with anything.

* `feed_cell`, `feed_row` — what the reader has read after a cell, and after a row.
* `read_document` — **what is written is read back**, if no row is empty or only one empty cell.
-/

import Mathlib.Data.List.Basic

namespace Meter.Lib.Csv

/-- The marks of a format. -/
structure Marks (α : Type) where
  comma : α
  quote : α
  newline : α
  carriage : α
  distinct : [comma, quote, newline, carriage].Nodup

section

variable {α : Type} [DecidableEq α] (marks : Marks α)

/-! ### The writer -/

/-- A letter that a cell is quoted for. -/
def Marks.isMark (letter : α) : Bool :=
  letter ∈ [marks.comma, marks.quote, marks.newline, marks.carriage]

/-- A cell with its quotes doubled. -/
def Marks.doubled (cell : List α) : List α :=
  cell.flatMap fun letter => if letter = marks.quote then [marks.quote, marks.quote] else [letter]

def Marks.cell (cell : List α) : List α :=
  if cell.any marks.isMark then marks.quote :: (marks.doubled cell ++ [marks.quote]) else cell

def Marks.row (cells : List (List α)) : List α :=
  List.intercalate [marks.comma] (cells.map marks.cell)

def Marks.document (rows : List (List (List α))) : List α :=
  List.intercalate [marks.newline] (rows.map marks.row)

/-! ### The reader -/

/-- Where the reader is in a cell. -/
inductive Mode where
  | start
  | plain
  | quoted
  | closed
  | returned
  deriving DecidableEq

/-- What has been read: the rows, the cells of the next row, and the letters of the next cell. -/
inductive Reader (α : Type) where
  | reading (mode : Mode) (letters : List α) (cells : List (List α)) (rows : List (List (List α)))
  | invalid

/-- The reader takes a letter outside quotes, where `other` is what a letter is that is no mark. -/
def Marks.outside (letters : List α) (cells : List (List α)) (rows : List (List (List α)))
    (letter : α) (other : Reader α) : Reader α :=
  if letter = marks.comma then .reading .start [] (cells ++ [letters]) rows
  else if letter = marks.newline then .reading .start [] [] (rows ++ [cells ++ [letters]])
  else if letter = marks.carriage then .reading .returned letters cells rows
  else other

/-- **The reader takes a letter.** -/
def Marks.feed : Reader α → α → Reader α
  | .reading .start letters cells rows, letter =>
    marks.outside letters cells rows letter <|
      if letter = marks.quote then .reading .quoted letters cells rows
      else .reading .plain (letters ++ [letter]) cells rows
  | .reading .plain letters cells rows, letter =>
    marks.outside letters cells rows letter <|
      if letter = marks.quote then .invalid else .reading .plain (letters ++ [letter]) cells rows
  | .reading .quoted letters cells rows, letter =>
    if letter = marks.quote then .reading .closed letters cells rows
    else .reading .quoted (letters ++ [letter]) cells rows
  | .reading .closed letters cells rows, letter =>
    marks.outside letters cells rows letter <|
      if letter = marks.quote then .reading .quoted (letters ++ [letter]) cells rows else .invalid
  | .reading .returned letters cells rows, letter =>
    if letter = marks.newline then .reading .start [] [] (rows ++ [cells ++ [letters]]) else .invalid
  | .invalid, _ => .invalid

/-- What has been read at the end of a text. -/
def Reader.finish : Reader α → Option (List (List (List α)))
  | .reading .start _ [] rows => some rows
  | .reading .start letters cells rows | .reading .plain letters cells rows
  | .reading .closed letters cells rows => some (rows ++ [cells ++ [letters]])
  | .reading .quoted _ _ _ | .reading .returned _ _ _ | .invalid => none

def Marks.read (text : List α) : Option (List (List (List α))) :=
  (text.foldl marks.feed (.reading .start [] [] [])).finish

end

/-! ### One cell -/

section

variable {α : Type} [DecidableEq α] {marks : Marks α}
variable {cells : List (List α)} {rows : List (List (List α))}

omit [DecidableEq α] in
theorem Marks.newline_ne_comma (marks : Marks α) : marks.newline ≠ marks.comma := by
  have nodup := marks.distinct
  simp only [List.nodup_cons, List.mem_cons, not_or] at nodup
  exact fun same => nodup.1.2.1 same.symm

omit [DecidableEq α] in
theorem Marks.quote_ne (marks : Marks α) : marks.quote ≠ marks.comma ∧
    marks.quote ≠ marks.newline ∧ marks.quote ≠ marks.carriage := by
  have nodup := marks.distinct
  simp only [List.nodup_cons, List.mem_cons, not_or] at nodup
  exact ⟨fun same => nodup.1.1 same.symm, nodup.2.1.1, nodup.2.1.2.1⟩

/-- The reader has read a cell, and can go on after it. -/
inductive Holds (cell : List α) (cells : List (List α)) (rows : List (List (List α))) :
    Reader α → Prop
  | empty : cell = [] → Holds cell cells rows (.reading .start cell cells rows)
  | plain : Holds cell cells rows (.reading .plain cell cells rows)
  | closed : Holds cell cells rows (.reading .closed cell cells rows)

theorem Holds.comma {cell : List α} {reader : Reader α} (holds : Holds cell cells rows reader) :
    marks.feed reader marks.comma = .reading .start [] (cells ++ [cell]) rows := by
  cases holds <;> simp [Marks.feed, Marks.outside]

theorem Holds.newline {cell : List α} {reader : Reader α} (holds : Holds cell cells rows reader) :
    marks.feed reader marks.newline = .reading .start [] [] (rows ++ [cells ++ [cell]]) := by
  have distinct := marks.newline_ne_comma
  cases holds <;> simp [Marks.feed, Marks.outside, distinct]

omit [DecidableEq α] in
theorem Holds.finish {cell : List α} {reader : Reader α} (holds : Holds cell cells rows reader)
    (more : cells ≠ [] ∨ cell ≠ []) : reader.finish = some (rows ++ [cells ++ [cell]]) := by
  cases holds with
  | empty isEmpty =>
    cases cells with
    | nil => exact absurd isEmpty (more.resolve_left fun none => none rfl)
    | cons _ _ => rfl
  | plain | closed => rfl

/-- Letters that are no marks. -/
theorem feed_plain {cell : List α} (plain : ∀ letter ∈ cell, marks.isMark letter = false)
    {mode : Mode} (outside : mode = .start ∨ mode = .plain) (letters : List α) :
    cell.foldl marks.feed (.reading mode letters cells rows) =
      .reading (if cell = [] then mode else .plain) (letters ++ cell) cells rows := by
  induction cell generalizing mode letters with
  | nil => simp
  | cons letter cell ih =>
    obtain ⟨here, later⟩ := List.forall_mem_cons.mp plain
    have other : letter ≠ marks.comma ∧ letter ≠ marks.quote ∧ letter ≠ marks.newline ∧
        letter ≠ marks.carriage := by simpa [Marks.isMark] using here
    have fed : marks.feed (.reading mode letters cells rows) letter =
        .reading .plain (letters ++ [letter]) cells rows := by
      rcases outside with rfl | rfl <;>
        simp [Marks.feed, Marks.outside, other.1, other.2.1, other.2.2.1, other.2.2.2]
    rw [List.foldl_cons, fed, ih later (.inr rfl)]
    simp

/-- Letters in quotes, with doubled quotes. -/
theorem feed_doubled (cell letters : List α) :
    (marks.doubled cell).foldl marks.feed (.reading .quoted letters cells rows) =
      .reading .quoted (letters ++ cell) cells rows := by
  have distinct := marks.quote_ne
  induction cell generalizing letters with
  | nil => simp [Marks.doubled]
  | cons letter cell ih =>
    have fed : (if letter = marks.quote then [marks.quote, marks.quote] else [letter]).foldl
        marks.feed (.reading .quoted letters cells rows) =
          .reading .quoted (letters ++ [letter]) cells rows := by
      by_cases isQuote : letter = marks.quote
      · simp [isQuote, Marks.feed, Marks.outside, distinct.1, distinct.2.1, distinct.2.2]
      · simp [isQuote, Marks.feed]
    rw [Marks.doubled, List.flatMap_cons, List.foldl_append, fed]
    exact (ih _).trans (by simp)

/-- **What the reader has read after a cell.** -/
theorem feed_cell (cell : List α) : Holds cell cells rows
    ((marks.cell cell).foldl marks.feed (.reading .start [] cells rows)) := by
  unfold Marks.cell
  split
  · have distinct := marks.quote_ne
    have opened : marks.feed (.reading .start [] cells rows) marks.quote =
        .reading .quoted [] cells rows := by
      simp [Marks.feed, Marks.outside, distinct.1, distinct.2.1, distinct.2.2]
    have closed : marks.feed (.reading .quoted cell cells rows) marks.quote =
        .reading .closed cell cells rows := by simp [Marks.feed]
    rw [List.foldl_cons, opened, List.foldl_append, feed_doubled, List.nil_append, List.foldl_cons,
      closed]
    exact .closed
  · rename_i plain
    have letters : ∀ letter ∈ cell, marks.isMark letter = false := by simpa using plain
    rw [feed_plain letters (.inl rfl), List.nil_append]
    split
    · exact .empty ‹_›
    · exact .plain

/-! ### Rows -/

/-- **What the reader has read after a row.** -/
theorem feed_row (first : List (List α)) (last : List α) : Holds last (cells ++ first) rows
    ((marks.row (first ++ [last])).foldl marks.feed (.reading .start [] cells rows)) := by
  induction first generalizing cells with
  | nil =>
    rw [List.append_nil]
    show Holds last cells rows ((List.intercalate _ [marks.cell last]).foldl _ _)
    rw [List.intercalate_singleton]
    exact feed_cell last
  | cons cell first ih =>
    have separated : marks.row (cell :: first ++ [last]) =
        marks.cell cell ++ marks.comma :: marks.row (first ++ [last]) := by
      unfold Marks.row
      rw [List.cons_append, List.map_cons, List.intercalate_cons_of_ne_nil (by simp), List.append_assoc]
      rfl
    rw [separated, List.foldl_append, List.foldl_cons, (feed_cell cell).comma]
    have more := @ih (cells ++ [cell])
    rwa [List.append_assoc] at more

/-- A row that is not lost: it has a cell, and not only an empty one. -/
def Lasting (row : List (List α)) : Prop := row ≠ [] ∧ row ≠ [[]]

theorem feed_document (table : List (List (List α))) (lasting : ∀ row ∈ table, Lasting row) :
    ((marks.document table).foldl marks.feed (.reading .start [] [] rows)).finish =
      some (rows ++ table) := by
  induction table generalizing rows with
  | nil => simp [Marks.document, Reader.finish]
  | cons row rest ih =>
    obtain ⟨⟨nonempty, notBlank⟩, later⟩ := List.forall_mem_cons.mp lasting
    obtain ⟨first, last, rfl⟩ := (List.eq_nil_or_concat' row).resolve_left nonempty
    have held := @feed_row _ _ marks [] rows first last
    rw [List.nil_append] at held
    cases rest with
    | nil =>
      have single : marks.document [first ++ [last]] = marks.row (first ++ [last]) :=
        List.intercalate_singleton
      rw [single]
      refine held.finish ?_
      by_contra neither
      obtain ⟨rfl, rfl⟩ := not_or.mp neither |>.imp not_not.mp not_not.mp
      exact notBlank rfl
    | cons next rest =>
      have separated : marks.document ((first ++ [last]) :: next :: rest) =
          marks.row (first ++ [last]) ++ marks.newline :: marks.document (next :: rest) := by
        unfold Marks.document
        rw [List.map_cons, List.intercalate_cons_of_ne_nil (by simp), List.append_assoc]
        rfl
      rw [separated, List.foldl_append, List.foldl_cons, held.newline, ih later, List.append_assoc]
      rfl

/-- **What is written is read back.** -/
theorem read_document {table : List (List (List α))} (lasting : ∀ row ∈ table, Lasting row) :
    marks.read (marks.document table) = some table := feed_document table lasting

end

end Meter.Lib.Csv
