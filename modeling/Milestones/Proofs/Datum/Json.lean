import Milestones.Datum.Json
import Milestones.Proofs.Outcome

/-!
# What is printed as JSON reads back

Data made of texts, truth values, lists and records are printed with one item or field a line.  The
text reads back as the same data, whatever is in the texts, unless lists and records are within each
other more deeply than a reader follows.

Reading goes character by character, so every lemma says what is taken off a printed text in front
of any other text.

## Main definitions

* `Datum.isPlain`: the data without numbers, with a limit for their depth.

## Main statements

* `Json.takeString_flatMap_escapeChar`: escapes stand for their characters.
* `Datum.ofJson?_toPrettyJson`: the printed text of such data reads back.
-/

namespace Milestones

namespace Datum

mutual
/-- The datum is made of texts, truth values, lists and records, and `room` levels are enough. -/
def isPlain : (room : Nat) → Datum → Bool
  | _, null => true
  | _, bool _ => true
  | _, text _ => true
  | room + 1, list items => allPlain room items
  | room + 1, record fields => allFieldsPlain room fields
  | _, _ => false

/-- `isPlain` for every item. -/
def allPlain : (room : Nat) → List Datum → Bool
  | _, [] => true
  | room, d :: rest => isPlain room d && allPlain room rest

/-- `isPlain` for every field. -/
def allFieldsPlain : (room : Nat) → List (String × Datum) → Bool
  | _, [] => true
  | room, (_, d) :: rest => isPlain room d && allFieldsPlain room rest
end

end Datum

namespace Json

/-! ## Strings -/

theorem takeString_escape {x c : Char} (hx : escaped? x = some c) {cs s rest : List Char}
    (h : takeString cs = some (s, true, rest)) :
    takeString ('\\' :: x :: cs) = some (c :: s, true, rest) := by
  have hne : x ≠ 'u' := fun hu => by cases hu; cases hx
  rw [takeString] <;> simp [hx, h, hne]

/-- Four digits after the letter of an escape are a unit, if the text can be read. -/
theorem exists_hexUnit?_of_takeString {a b c d : Char} {cs : List Char}
    {result : List Char × Bool × List Char}
    (h : takeString ('\\' :: 'u' :: a :: b :: c :: d :: cs) = some result) :
    ∃ n, hexUnit? a b c d = some n := by
  cases hunit : hexUnit? a b c d with
  | some n => exact ⟨n, rfl⟩
  | none =>
    unfold takeString at h
    split at h <;> grind

theorem takeString_unit {a b c d : Char} {n : Nat} (hunit : hexUnit? a b c d = some n)
    (hn : n < 0xD800) {cs s rest : List Char} (h : takeString cs = some (s, true, rest)) :
    takeString ('\\' :: 'u' :: a :: b :: c :: d :: cs) = some (Char.ofNat n :: s, true, rest) := by
  have hhigh : isHighSurrogate n = false := by simp [isHighSurrogate, hn]
  have hlow : isLowSurrogate n = false := by
    simp only [isLowSurrogate, Bool.and_eq_false_iff, decide_eq_false_iff_not]
    omega
  by_cases hnext : ∃ e f g h cs', cs = '\\' :: 'u' :: e :: f :: g :: h :: cs'
  · obtain ⟨e, f, g, h', cs', rfl⟩ := hnext
    obtain ⟨low, hunit'⟩ := exists_hexUnit?_of_takeString h
    rw [takeString]
    simp [hunit, hunit', hhigh, hlow, h]
  · rw [takeString]
    · simp [hunit, hhigh, hlow, h]
    · intro e f g h' cs' heq
      exact hnext ⟨e, f, g, h', cs', heq⟩

/-- An escaped character is taken off the text. -/
theorem takeString_escapeChar (c : Char) {cs s rest : List Char}
    (h : takeString cs = some (s, true, rest)) :
    takeString (escapeChar c ++ cs) = some (c :: s, true, rest) := by
  have hunit : ∀ n < 0x20, hexUnit? '0' '0' (Nat.digitChar (n / 16)) (Nat.digitChar (n % 16)) =
      some n := by decide
  unfold escapeChar
  split
  · exact takeString_escape rfl h
  · exact takeString_escape rfl h
  · exact takeString_escape rfl h
  · exact takeString_escape rfl h
  · exact takeString_escape rfl h
  · exact takeString_escape rfl h
  · exact takeString_escape rfl h
  · rename_i hquote hback _ _ _ _ _
    split
    · rename_i hcontrol
      have hchar := takeString_unit (hunit _ hcontrol) (by omega) h
      rwa [Char.ofNat_toNat] at hchar
    · rename_i hprint
      rw [List.singleton_append, takeString]
      · simp [h, hprint]
      · exact hquote
      all_goals
        intros
        simp_all

/-- Escapes stand for their characters. -/
theorem takeString_flatMap_escapeChar (cs rest : List Char) :
    takeString (cs.flatMap escapeChar ++ '"' :: rest) = some (cs, true, rest) := by
  induction cs with
  | nil => rw [List.flatMap_nil, List.nil_append, takeString]
  | cons c cs ih =>
    rw [List.flatMap_cons, List.append_assoc]
    exact takeString_escapeChar c ih

/-- A quoted text is taken off after its first quote. -/
theorem toList_quoted (s : String) (rest : List Char) :
    (quoted s).toList ++ rest = '"' :: (s.toList.flatMap escapeChar ++ '"' :: rest) := by
  simp [quoted]

/-! ## Spaces -/

theorem skip_cons {c : Char} (h : isSpace c = false) (cs : List Char) :
    skip (c :: cs) = c :: cs := by
  rw [skip, List.dropWhile_cons_of_neg (by simp [h])]

theorem skip_indent (level : Nat) (cs : List Char) :
    skip ((indent level).toList ++ cs) = skip cs := by
  have hspaces : ∀ c ∈ (indent level).toList, isSpace c = true := by
    intro c hc
    simp only [indent, String.toList_append, String.toList_ofList, List.mem_append,
      List.mem_replicate] at hc
    rcases hc with hc | ⟨-, rfl⟩
    · rw [List.mem_singleton.1 hc]
      decide
    · decide
  rw [skip, skip, List.dropWhile_append_of_pos hspaces]

theorem length_indent_pos (level : Nat) : 0 < (indent level).toList.length := by
  simp [indent]

/-! ## Values -/

theorem toList_pretty_list {items : List Datum} (h : items ≠ []) (level : Nat) :
    (pretty level (.list items)).toList =
      '[' :: ((prettyItems (level + 1) true items).toList ++ ((indent level).toList ++ [']'])) := by
  cases items with
  | nil => exact absurd rfl h
  | cons d rest => simp [pretty]

theorem toList_pretty_record {fields : List (String × Datum)} (h : fields ≠ []) (level : Nat) :
    (pretty level (.record fields)).toList =
      '\x7b' :: ((prettyFields (level + 1) true fields).toList ++
        ((indent level).toList ++ ['\x7d'])) := by
  cases fields with
  | nil => exact absurd rfl h
  | cons f rest => simp [pretty]

/-- A printed value starts with a character that is neither a space nor a closing bracket. -/
theorem exists_cons_pretty {room : Nat} {d : Datum} (h : d.isPlain room = true) (level : Nat) :
    ∃ c cs, (pretty level d).toList = c :: cs ∧ isSpace c = false ∧ c ≠ ']' ∧ c ≠ '\x7d' := by
  cases d with
  | null => exact ⟨'n', ['u', 'l', 'l'], by simp [pretty], by decide⟩
  | bool b =>
    cases b with
    | true => exact ⟨'t', ['r', 'u', 'e'], by simp [pretty], by decide⟩
    | false => exact ⟨'f', ['a', 'l', 's', 'e'], by simp [pretty], by decide⟩
  | int n => cases room <;> cases h
  | float x => cases room <;> cases h
  | text s =>
    have hquoted := toList_quoted s []
    rw [List.append_nil] at hquoted
    exact ⟨'"', _, by rw [pretty, hquoted], by decide⟩
  | list items =>
    rcases eq_or_ne items [] with rfl | hitems
    · exact ⟨'[', [']'], by simp [pretty], by decide⟩
    · exact ⟨'[', _, toList_pretty_list hitems level, by decide⟩
  | record fields =>
    rcases eq_or_ne fields [] with rfl | hfields
    · exact ⟨'\x7b', ['\x7d'], by simp [pretty], by decide⟩
    · exact ⟨'\x7b', _, toList_pretty_record hfields level, by decide⟩
  | unreadable => cases room <;> cases h

/-- So a printed item or field is taken off after the spaces in front of it. -/
theorem skip_pretty {room : Nat} {d : Datum} (h : d.isPlain room = true) (level : Nat)
    (rest : List Char) :
    skip ((pretty level d).toList ++ rest) = (pretty level d).toList ++ rest := by
  obtain ⟨c, cs, htext, hspace, -⟩ := exists_cons_pretty h level
  rw [htext, List.cons_append, skip_cons hspace]

theorem skip_quoted (name : String) (rest : List Char) :
    skip ((quoted name).toList ++ rest) = (quoted name).toList ++ rest := by
  rw [toList_quoted, skip_cons (by decide)]

/-- A name in quotes is taken off with its colon. -/
theorem takeFieldName_quoted (name : String) {rest : List Char} (h : skip rest = rest) :
    takeFieldName ((quoted name).toList ++ ':' :: ' ' :: rest) = some (some name, rest) := by
  have hspace : skip (' ' :: rest) = skip rest := by simp [skip, isSpace]
  rw [toList_quoted, takeFieldName]
  simp [takeString_flatMap_escapeChar, skip_cons (by decide : isSpace ':' = false), hspace, h]

/-- Fields that all have names are a record. -/
theorem recordOf_map (fields : List (String × Datum)) :
    recordOf (fields.map fun f => (some f.1, f.2)) = .record fields := by
  have hnames : (fields.map fun f => (some f.1, f.2)).mapM
      (fun x : Option String × Datum => x.1.map (·, x.2)) = some fields := by
    rw [Outcome.mapM_eq_some_iff, List.map_map]
    rfl
  simp only [recordOf, hnames]

/-- Behind the first item there is a comma. -/
theorem toList_prettyItems_false {items : List Datum} (h : items ≠ []) (level : Nat) :
    (prettyItems level false items).toList = ',' :: (prettyItems level true items).toList := by
  cases items with
  | nil => exact absurd rfl h
  | cons d rest => simp [prettyItems]

theorem toList_prettyFields_false {fields : List (String × Datum)} (h : fields ≠ []) (level : Nat) :
    (prettyFields level false fields).toList = ',' :: (prettyFields level true fields).toList := by
  cases fields with
  | nil => exact absurd rfl h
  | cons f rest => simp [prettyFields]

/-- The first item stands behind a line break. -/
theorem toList_prettyItems_cons (level : Nat) (d : Datum) (items : List Datum) :
    (prettyItems level true (d :: items)).toList = (indent level).toList ++
      ((pretty level d).toList ++ (prettyItems level false items).toList) := by
  simp [prettyItems]

theorem toList_prettyFields_cons (level : Nat) (name : String) (d : Datum)
    (fields : List (String × Datum)) :
    (prettyFields level true ((name, d) :: fields)).toList = (indent level).toList ++
      ((quoted name).toList ++ ':' :: ' ' ::
        ((pretty level d).toList ++ (prettyFields level false fields).toList)) := by
  simp [prettyFields]

/-- So the list is not closed at once. -/
theorem exists_skip_prettyItems {room : Nat} {items : List Datum} (hne : items ≠ [])
    (hall : Datum.allPlain room items = true) (level : Nat) (rest : List Char) :
    ∃ c cs, skip ((prettyItems level true items).toList ++ rest) = c :: cs ∧ c ≠ ']' := by
  cases items with
  | nil => exact absurd rfl hne
  | cons d items =>
    rw [Datum.allPlain, Bool.and_eq_true] at hall
    obtain ⟨c, cs, htext, -, hc, -⟩ := exists_cons_pretty hall.1 level
    rw [toList_prettyItems_cons, List.append_assoc, List.append_assoc, skip_indent,
      skip_pretty hall.1, htext]
    exact ⟨c, _, rfl, hc⟩

theorem exists_skip_prettyFields {fields : List (String × Datum)} (hne : fields ≠ [])
    (level : Nat) (rest : List Char) :
    ∃ c cs, skip ((prettyFields level true fields).toList ++ rest) = c :: cs ∧ c ≠ '\x7d' := by
  cases fields with
  | nil => exact absurd rfl hne
  | cons f fields =>
    rw [toList_prettyFields_cons, List.append_assoc, List.append_assoc, skip_indent, skip_quoted,
      toList_quoted]
    exact ⟨'"', _, rfl, by decide⟩

/-- What is not closed at once is a list of the items up to the bracket. -/
theorem takeValue_list {room fuel : Nat} {cs rest : List Char} {items : List Datum}
    (hcs : ∃ c tail, skip cs = c :: tail ∧ c ≠ ']')
    (h : takeItems room fuel (skip cs) = some (items, rest)) :
    takeValue (room + 1) (fuel + 1) ('[' :: cs) = some (.list items, rest) := by
  obtain ⟨c, tail, hskip, hc⟩ := hcs
  rw [hskip] at h
  rw [takeValue]
  simp [hskip, h, hc, ifRoom]

theorem takeValue_record {room fuel : Nat} {cs rest : List Char}
    {fields : List (Option String × Datum)} (hcs : ∃ c tail, skip cs = c :: tail ∧ c ≠ '\x7d')
    (h : takeFields room fuel (skip cs) = some (fields, rest)) :
    takeValue (room + 1) (fuel + 1) ('\x7b' :: cs) = some (recordOf fields, rest) := by
  obtain ⟨c, tail, hskip, hc⟩ := hcs
  rw [hskip] at h
  rw [takeValue]
  simp [hskip, h, hc, ifRoom]

/-- With so much fuel, printed values are taken off the text, and so are items and fields up to the
closing bracket. -/
structure TakesPrinted (fuel : Nat) : Prop where
  value : ∀ {room : Nat} (level : Nat) {d : Datum}, d.isPlain room = true →
    (pretty level d).toList.length ≤ fuel → ∀ rest,
      takeValue room fuel ((pretty level d).toList ++ rest) = some (d, rest)
  items : ∀ {room : Nat} (level outer : Nat) {items : List Datum}, items ≠ [] →
    Datum.allPlain room items = true → (prettyItems level true items).toList.length ≤ fuel → ∀ rest,
      takeItems room fuel (skip ((prettyItems level true items).toList ++
        ((indent outer).toList ++ ']' :: rest))) = some (items, rest)
  fields : ∀ {room : Nat} (level outer : Nat) {fields : List (String × Datum)}, fields ≠ [] →
    Datum.allFieldsPlain room fields = true →
      (prettyFields level true fields).toList.length ≤ fuel → ∀ rest,
        takeFields room fuel (skip ((prettyFields level true fields).toList ++
          ((indent outer).toList ++ '\x7d' :: rest))) =
            some (fields.map fun f => (some f.1, f.2), rest)

namespace TakesPrinted

/-- Every printed text has a character, so without fuel there is nothing to show. -/
theorem zero : TakesPrinted 0 where
  value level d hd hfuel := by
    obtain ⟨c, cs, htext, -⟩ := exists_cons_pretty hd level
    simp [htext] at hfuel
  items level _ items hne _ hfuel := by
    have hindent := length_indent_pos level
    cases items with
    | nil => exact absurd rfl hne
    | cons d items =>
      rw [toList_prettyItems_cons, List.length_append] at hfuel
      omega
  fields level _ fields hne _ hfuel := by
    have hindent := length_indent_pos level
    cases fields with
    | nil => exact absurd rfl hne
    | cons f fields =>
      rw [toList_prettyFields_cons, List.length_append] at hfuel
      omega

variable {fuel : Nat} (h : TakesPrinted fuel)
include h

theorem value_succ {room : Nat} (level : Nat) {d : Datum} (hd : d.isPlain room = true)
    (hfuel : (pretty level d).toList.length ≤ fuel + 1) (rest : List Char) :
    takeValue room (fuel + 1) ((pretty level d).toList ++ rest) = some (d, rest) := by
  cases d with
  | null => simp [pretty, takeValue]
  | bool b => cases b <;> simp [pretty, takeValue]
  | text s =>
    rw [pretty, toList_quoted]
    simp [takeValue, takeString_flatMap_escapeChar]
  | list items =>
    cases room with
    | zero => cases hd
    | succ room =>
      rcases eq_or_ne items [] with rfl | hitems
      · simp [pretty, takeValue, skip_cons (by decide : isSpace ']' = false), ifRoom]
      · have hall : Datum.allPlain room items = true := by rwa [Datum.isPlain] at hd
        rw [toList_pretty_list hitems] at hfuel ⊢
        simp only [List.cons_append, List.append_assoc, List.nil_append]
        exact takeValue_list (exists_skip_prettyItems hitems hall _ _)
          (h.items (level + 1) level hitems hall (by simp at hfuel; omega) rest)
  | record fields =>
    cases room with
    | zero => cases hd
    | succ room =>
      rcases eq_or_ne fields [] with rfl | hfields
      · simp [pretty, takeValue, skip_cons (by decide : isSpace '\x7d' = false), ifRoom]
      · have hall : Datum.allFieldsPlain room fields = true := by rwa [Datum.isPlain] at hd
        rw [toList_pretty_record hfields] at hfuel ⊢
        simp only [List.cons_append, List.append_assoc, List.nil_append]
        rw [← recordOf_map fields]
        exact takeValue_record (exists_skip_prettyFields hfields _ _)
          (h.fields (level + 1) level hfields hall (by simp at hfuel; omega) rest)
  | int n => cases room <;> cases hd
  | float x => cases room <;> cases hd
  | unreadable => cases room <;> cases hd

theorem items_succ {room : Nat} (level outer : Nat) {items : List Datum} (hne : items ≠ [])
    (hall : Datum.allPlain room items = true)
    (hfuel : (prettyItems level true items).toList.length ≤ fuel + 1) (rest : List Char) :
    takeItems room (fuel + 1) (skip ((prettyItems level true items).toList ++
      ((indent outer).toList ++ ']' :: rest))) = some (items, rest) := by
  cases items with
  | nil => exact absurd rfl hne
  | cons d items =>
    obtain ⟨hd, hall⟩ : d.isPlain room = true ∧ Datum.allPlain room items = true := by
      rwa [Datum.allPlain, Bool.and_eq_true] at hall
    have hindent := length_indent_pos level
    rw [toList_prettyItems_cons] at hfuel ⊢
    simp only [List.length_append] at hfuel
    rw [List.append_assoc, List.append_assoc, skip_indent, skip_pretty hd, takeItems,
      h.value level hd (by omega)]
    rcases eq_or_ne items [] with rfl | hitems
    · have hclose : skip ((prettyItems level false []).toList ++
          ((indent outer).toList ++ ']' :: rest)) = ']' :: rest := by
        rw [prettyItems, String.toList_empty, List.nil_append, skip_indent, skip_cons (by decide)]
      simp [hclose]
    · rw [toList_prettyItems_false hitems] at hfuel ⊢
      have hnext := h.items level outer hitems hall (by simp at hfuel; omega) rest
      rw [List.cons_append]
      simp [skip_cons (by decide : isSpace ',' = false), hnext]

theorem fields_succ {room : Nat} (level outer : Nat) {fields : List (String × Datum)}
    (hne : fields ≠ []) (hall : Datum.allFieldsPlain room fields = true)
    (hfuel : (prettyFields level true fields).toList.length ≤ fuel + 1) (rest : List Char) :
    takeFields room (fuel + 1) (skip ((prettyFields level true fields).toList ++
      ((indent outer).toList ++ '\x7d' :: rest))) =
        some (fields.map fun f => (some f.1, f.2), rest) := by
  cases fields with
  | nil => exact absurd rfl hne
  | cons f fields =>
    obtain ⟨name, d⟩ := f
    obtain ⟨hd, hall⟩ : d.isPlain room = true ∧ Datum.allFieldsPlain room fields = true := by
      rwa [Datum.allFieldsPlain, Bool.and_eq_true] at hall
    have hindent := length_indent_pos level
    rw [toList_prettyFields_cons] at hfuel ⊢
    simp only [List.length_append, List.length_cons] at hfuel
    simp only [List.append_assoc, List.cons_append]
    rw [skip_indent, skip_quoted, takeFields, takeFieldName_quoted name (skip_pretty hd _ _)]
    have hvalue := h.value level hd (by omega)
    rcases eq_or_ne fields [] with rfl | hfields
    · have hclose : skip ((prettyFields level false []).toList ++
          ((indent outer).toList ++ '\x7d' :: rest)) = '\x7d' :: rest := by
        rw [prettyFields, String.toList_empty, List.nil_append, skip_indent, skip_cons (by decide)]
      simp [hvalue, hclose]
    · rw [toList_prettyFields_false hfields] at hfuel ⊢
      have hnext := h.fields level outer hfields hall (by simp at hfuel; omega) rest
      rw [List.cons_append]
      simp [hvalue, skip_cons (by decide : isSpace ',' = false), hnext]

end TakesPrinted

/-- As many steps as a printed text has characters take it off. -/
theorem takesPrinted (fuel : Nat) : TakesPrinted fuel := by
  induction fuel with
  | zero => exact TakesPrinted.zero
  | succ fuel ih => exact ⟨ih.value_succ, ih.items_succ, ih.fields_succ⟩

end Json

/-- The printed text of data that is within reach of a reader reads back, also with a line break
behind it. -/
theorem Datum.ofJson?_toPrettyJson {d : Datum} (h : d.isPlain Json.nestingLimit = true) :
    ofJson? (d.toPrettyJson ++ "\n") = some d := by
  have hvalue := (Json.takesPrinted _).value 0 h (Nat.le_succ_of_le (Nat.le_succ _)) ['\n']
  have hend : Json.skip ['\n'] = [] := by decide
  rw [ofJson?, toPrettyJson, Json.read?, String.toList_append, Json.skip_pretty h]
  simp [hvalue, hend]

end Milestones
