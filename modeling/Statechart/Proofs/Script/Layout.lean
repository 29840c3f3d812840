import Mathlib.Tactic.Lemma
import Statechart.Script.Value

/-!
# The layout of values

What a writer puts down for a value, said by recursion on the value and without a writer.

* `Value.layout` — the text of a value on lines of a given depth.
* **`Writer.applyAll_operations`** — from any state whatever, writing a value appends its layout
  and leaves the depth and the open containers as they were.

The proof goes through the properties of an open object and the elements of an open array, where
what stands in front of the first text depends on whether the container is still empty
(`separated`).
-/

namespace Statechart.Script

/-- The lines inside the brackets of a multi-line array at the given depth.  Without lines the
brackets stay together. -/
def block (depth : Nat) (lines : List String) : String :=
  if lines.isEmpty then ""
  else "\n" ++ String.intercalate ",\n" lines ++ "\n" ++ indentation depth

namespace Value

mutual

/-- The text of a value, with `depth` levels of indentation around it. -/
def layout (depth : Nat) : Value → String
  | token text => text
  | string text => quote text
  | object properties =>
    "\x7b\n" ++ String.intercalate ",\n" (propertyLines (depth + 1) properties) ++ "\n" ++
      indentation depth ++ "\x7d"
  | array false elements => "[" ++ String.intercalate ", " (elementTexts depth elements) ++ "]"
  | array true elements =>
    "[" ++ block depth ((elementTexts (depth + 1) elements).map (indentation (depth + 1) ++ ·)) ++
      "]"
  | call callee argument => callee ++ "(" ++ argument.layout depth ++ ")"

/-- The lines of properties, each with the indentation in front of it. -/
def propertyLines (depth : Nat) : List (String × Value) → List String
  | [] => []
  | (key, value) :: rest =>
    (indentation depth ++ propertyKey key ++ ": " ++ value.layout depth) ::
      propertyLines depth rest

/-- The texts of elements. -/
def elementTexts (depth : Nat) : List Value → List String
  | [] => []
  | value :: rest => value.layout depth :: elementTexts depth rest

end

lemma propertyOperations_append (ps qs : List (String × Value)) :
    propertyOperations (ps ++ qs) = propertyOperations ps ++ propertyOperations qs := by
  induction ps with
  | nil => rw [propertyOperations]; rfl
  | cons p ps ih => rw [List.cons_append, propertyOperations, propertyOperations, ih]; simp

end Value

/-- Texts in a row: `opener` in front of the first, and the separator in front of all others. -/
def separated (opener separator : String) : List String → String
  | [] => ""
  | text :: rest => opener ++ text ++ separated separator separator rest

/-- At least one text, with the opener in front and separators between. -/
lemma separated_cons (opener separator : String) (text : String) (rest : List String) :
    separated opener separator (text :: rest) =
      opener ++ String.intercalate separator (text :: rest) := by
  induction rest generalizing opener text with
  | nil => simp [separated]
  | cons next rest ih =>
      rw [separated, ih, String.intercalate_cons_cons]
      simp only [String.append_assoc]

lemma separated_empty (separator : String) (texts : List String) :
    separated "" separator texts = String.intercalate separator texts := by
  cases texts with
  | nil => simp [separated]
  | cons text rest => rw [separated_cons, String.empty_append]

namespace Writer

@[simp] lemma put_text (w : Writer) (s : String) : (w.put s).text = w.text ++ s := rfl
@[simp] lemma put_depth (w : Writer) (s : String) : (w.put s).depth = w.depth := rfl
@[simp] lemma put_frames (w : Writer) (s : String) : (w.put s).frames = w.frames := rfl

/-! ## Operations in a row -/

@[simp] lemma applyAll_nil (w : Writer) : w.applyAll [] = .ok w := rfl

/-- A row of operations is carried out part by part. -/
lemma applyAll_append (w : Writer) (as bs : List Operation) :
    w.applyAll (as ++ bs) =
      match w.applyAll as with
      | .ok w => w.applyAll bs
      | .error fault => .error fault := by
  induction as generalizing w with
  | nil => rfl
  | cons a as ih =>
      rw [List.cons_append, applyAll, applyAll]
      cases w.apply a with
      | ok w' => exact ih w'
      | error fault => rfl

lemma applyAll_append_of_ok {w w' : Writer} {as : List Operation} (h : w.applyAll as = .ok w')
    (bs : List Operation) : w.applyAll (as ++ bs) = w'.applyAll bs := by
  rw [applyAll_append, h]

lemma applyAll_cons_of_ok {w w' : Writer} {a : Operation} (h : w.apply a = .ok w')
    (as : List Operation) : w.applyAll (a :: as) = w'.applyAll as := by
  rw [applyAll, h]

lemma applyAll_cons_eq_ok {w w' : Writer} {a : Operation} {as : List Operation} :
    w.applyAll (a :: as) = .ok w' ↔ ∃ u, w.apply a = .ok u ∧ u.applyAll as = .ok w' := by
  rw [applyAll]
  cases w.apply a <;> simp

lemma applyAll_append_eq_ok {w w' : Writer} {as bs : List Operation} :
    w.applyAll (as ++ bs) = .ok w' ↔ ∃ u, w.applyAll as = .ok u ∧ u.applyAll bs = .ok w' := by
  rw [applyAll_append]
  cases w.applyAll as <;> simp

/-! ## Values -/

/-- A writer in an open object, after lines of properties. -/
def withLines (w : Writer) (fresh : Bool) (outer : List Frame) (lines : List String) : Writer :=
  { w with
    text := w.text ++ separated (if fresh then "" else ",\n") ",\n" lines
    frames := .object (fresh && lines.isEmpty) :: outer }

/-- What stands in front of an element. -/
def elementOpener (depth : Nat) (fresh multiline : Bool) : String :=
  if multiline then (if fresh then "\n" else ",\n") ++ indentation depth
  else if fresh then "" else ", "

/-- A writer in an open array, after elements. -/
def withElements (w : Writer) (fresh multiline : Bool) (outer : List Frame)
    (texts : List String) : Writer :=
  { w with
    text := w.text ++ separated (elementOpener w.depth fresh multiline)
      (elementOpener w.depth false multiline) texts
    frames := .array (fresh && texts.isEmpty) multiline :: outer }

/-- Closing an object that was opened at `w` and has got lines since. -/
lemma endObject_withLines (w : Writer) (lines : List String) :
    (w.startObject.withLines true w.frames lines).endObject =
      .ok (w.put ("\x7b\n" ++ String.intercalate ",\n" lines ++ "\n" ++ indentation w.depth ++
        "\x7d")) := by
  simp [endObject, withLines, startObject, put, putLine, separated_empty, String.append_assoc]

/-- What stands in front of each text may as well stand behind each separator. -/
lemma separated_map (start opener separator : String) (texts : List String) :
    separated (opener ++ start) (separator ++ start) texts =
      separated opener separator (texts.map (start ++ ·)) := by
  induction texts generalizing opener with
  | nil => rfl
  | cons text rest ih => simp [separated, ih, String.append_assoc]

/-- Closing a multi-line array that was opened at `w` and has got elements since. -/
lemma endArray_withElements_true (w : Writer) (texts : List String) :
    ((w.startArray true).withElements true true w.frames texts).endArray =
      .ok (w.put ("[" ++ block w.depth (texts.map (indentation (w.depth + 1) ++ ·)) ++ "]")) := by
  simp only [withElements, elementOpener, if_true, separated_map]
  cases texts with
  | nil => simp [endArray, startArray, put, block, separated, String.append_assoc]
  | cons text rest =>
      rw [List.map_cons, separated_cons]
      simp [endArray, startArray, put, putLine, block, String.append_assoc]

/-- Closing an array on one line that was opened at `w` and has got elements since. -/
lemma endArray_withElements_false (w : Writer) (texts : List String) :
    ((w.startArray false).withElements true false w.frames texts).endArray =
      .ok (w.put ("[" ++ String.intercalate ", " texts ++ "]")) := by
  simp [endArray, withElements, elementOpener, startArray, put, separated_empty,
    String.append_assoc]

mutual

/-- **Writing a value appends its layout**, whatever the writer has open. -/
lemma applyAll_operations (w : Writer) : ∀ v : Value,
    w.applyAll v.operations = .ok (w.put (v.layout w.depth))
  | .token text => by rw [Value.operations, Value.layout]; rfl
  | .string text => by rw [Value.operations, Value.layout]; rfl
  | .object properties => by
      have hstart : w.apply .startObject = .ok w.startObject := rfl
      rw [Value.operations, Value.layout, List.cons_append, applyAll_cons_of_ok hstart,
        applyAll_append_of_ok
          (applyAll_propertyOperations w.startObject true w.frames rfl properties)]
      rw [applyAll, apply, endObject_withLines]
      rfl
  | .array true elements => by
      have hstart : w.apply (.startArray true) = .ok (w.startArray true) := rfl
      rw [Value.operations, Value.layout, List.cons_append, applyAll_cons_of_ok hstart,
        applyAll_append_of_ok
          (applyAll_elementOperations (w.startArray true) true true w.frames rfl elements)]
      rw [applyAll, apply, endArray_withElements_true]
      rfl
  | .array false elements => by
      have hstart : w.apply (.startArray false) = .ok (w.startArray false) := rfl
      rw [Value.operations, Value.layout, List.cons_append, applyAll_cons_of_ok hstart,
        applyAll_append_of_ok
          (applyAll_elementOperations (w.startArray false) true false w.frames rfl elements)]
      rw [applyAll, apply, endArray_withElements_false]
      rfl
  | .call callee argument => by
      have hstart : w.apply (.startCall callee) = .ok (w.put (callee ++ "(")) := rfl
      rw [Value.operations, Value.layout, List.cons_append, applyAll_cons_of_ok hstart,
        applyAll_append_of_ok (applyAll_operations (w.put (callee ++ "(")) argument)]
      simp [applyAll, apply, put, String.append_assoc]

/-- Properties of an open object become lines of it. -/
lemma applyAll_propertyOperations (w : Writer) (fresh : Bool) (outer : List Frame)
    (h : w.frames = .object fresh :: outer) : ∀ properties : List (String × Value),
    w.applyAll (Value.propertyOperations properties) =
      .ok (w.withLines fresh outer (Value.propertyLines w.depth properties))
  | [] => by
      rw [Value.propertyOperations, Value.propertyLines]
      cases w
      simp_all [withLines, separated]
  | (key, value) :: rest => by
      rw [Value.propertyOperations, Value.propertyLines, List.cons_append,
        applyAll_cons_of_ok (by rw [apply, startProperty, h]),
        applyAll_append_of_ok (applyAll_operations _ value),
        applyAll_propertyOperations _ false outer rfl rest]
      simp [withLines, separated, put, putLine, String.append_assoc]

/-- Elements of an open array become texts of it. -/
lemma applyAll_elementOperations (w : Writer) (fresh multiline : Bool) (outer : List Frame)
    (h : w.frames = .array fresh multiline :: outer) : ∀ elements : List Value,
    w.applyAll (Value.elementOperations elements) =
      .ok (w.withElements fresh multiline outer (Value.elementTexts w.depth elements))
  | [] => by
      rw [Value.elementOperations, Value.elementTexts]
      cases w
      simp_all [withElements, separated]
  | value :: rest => by
      have started : w.startElement = .ok ({ w with frames := .array false multiline :: outer }.put
          (elementOpener w.depth fresh multiline)) := by
        rw [startElement, h]
        cases multiline <;> simp [elementOpener, putLine, put]
      rw [Value.elementOperations, Value.elementTexts, List.cons_append,
        applyAll_cons_of_ok (by rw [apply, started]),
        applyAll_append_of_ok (applyAll_operations _ value),
        applyAll_elementOperations _ false multiline outer rfl rest]
      simp [withElements, separated, put, String.append_assoc]

end

end Writer

end Statechart.Script
