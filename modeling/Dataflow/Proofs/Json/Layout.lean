import Dataflow.Proofs.Json.Scalars
/-!
# Values are read back

The printer breaks lines and indents; the reader skips what is blank and looks at one character to
know what comes.  Each such look is a lemma here, so the round trip is an induction on the value
alone.  The depth that the reader is given has to cover the nesting of the value, and what it keeps
as fuel for a list is the length of the text, of which every item takes some.

**Proved here.**

    the items of an array, and the members of an object   (`items_pretty`, `members_pretty`)
    a value, whatever level it stands on                    (`value_pretty`)
    a whole text with an object whose members are read      (`parseFor?_pretty`)
-/
namespace Dataflow.Json

/-- The values whose numbers are whole. -/
inductive Exact : Json → Prop
  | null : Exact .null
  | bool {b : Bool} : Exact (.bool b)
  | number {n : Number} : n.Whole → Exact (.number n)
  | text {s : String} : Exact (.text s)
  | array {items : List Json} : (∀ j ∈ items, Exact j) → Exact (.array items)
  | object {members : List (String × Json)} :
      (∀ m ∈ members, Exact m.2) → Exact (.object members)

theorem height_le_heightItems {items : List Json} {j : Json} (h : j ∈ items) :
    j.height ≤ heightItems items := by
  induction items with
  | nil => cases h
  | cons i rest ih =>
      rw [heightItems]
      rcases List.mem_cons.mp h with rfl | hrest
      · exact Nat.le_max_left _ _
      · exact Nat.le_trans (ih hrest) (Nat.le_max_right _ _)

theorem height_le_heightMembers {members : List (String × Json)} {m : String × Json}
    (h : m ∈ members) : m.2.height ≤ heightMembers members := by
  induction members with
  | nil => cases h
  | cons i rest ih =>
      obtain ⟨k, j⟩ := i
      rw [heightMembers]
      rcases List.mem_cons.mp h with rfl | hrest
      · exact Nat.le_max_left _ _
      · exact Nat.le_trans (ih hrest) (Nat.le_max_right _ _)

/-! ## Blanks -/

theorem skipBlank_append {blanks : List Char} (h : ∀ c ∈ blanks, c = ' ' ∨ c = '\n')
    (cs : List Char) : skipBlank (blanks ++ cs) = skipBlank cs := by
  refine List.dropWhile_append_of_pos ?_
  intro c hc
  rcases h c hc with rfl | rfl
  · rfl
  · rfl

theorem skipBlank_lineBreak (level : Nat) (cs : List Char) :
    skipBlank ((lineBreak level).toList ++ cs) = skipBlank cs := by
  refine skipBlank_append ?_ cs
  intro c hc
  have hmem : c = '\n' ∨ c ∈ List.replicate (2 * level) ' ' := by
    simpa [lineBreak] using hc
  rcases hmem with hbreak | hspace
  · exact Or.inr hbreak
  · exact Or.inl (List.eq_of_mem_replicate hspace)

theorem delimited_lineBreak (level : Nat) (cs : List Char) :
    Delimited ((lineBreak level).toList ++ cs) := by
  intro c hc
  have hbreak : '\n' = c := by simpa [lineBreak] using hc
  exact Or.inr hbreak.symm

theorem delimited_comma (cs : List Char) : Delimited (',' :: cs) := by
  intro c hc
  cases hc
  exact Or.inl rfl

/-- The characters that a value can begin with: not blank, and no closing bracket. -/
def Opening (c : Char) : Prop := c ∉ [' ', '\n', '\t', '\r', ']']

instance : DecidablePred Opening := fun c => inferInstanceAs (Decidable (c ∉ _))

theorem Opening.skipBlank {c : Char} (h : Opening c) (cs : List Char) :
    skipBlank (c :: cs) = c :: cs := by
  refine List.dropWhile_cons_of_neg ?_
  intro hblank
  refine h ?_
  simp only [Bool.or_eq_true, decide_eq_true_eq] at hblank
  rcases hblank with ((rfl | rfl) | rfl) | rfl <;> decide

theorem not_mem_of_number {c : Char} {others : List Char} (h : c = '-' ∨ Decimal.isDigit c)
    (hothers : others.all (fun x => x != '-' && !Decimal.isDigit x) = true) : c ∉ others := by
  intro hmem
  have hc := List.all_eq_true.mp hothers c hmem
  rcases h with rfl | hdigit
  · cases hc
  · simp [hdigit] at hc

theorem value_congr {depth : Nat} {cs cs' : List Char} (h : skipBlank cs = skipBlank cs') :
    value depth cs = value depth cs' := by
  rw [value.eq_def, value.eq_def]
  simp only [h]

theorem value_lineBreak (depth level : Nat) (cs : List Char) :
    value depth ((lineBreak level).toList ++ cs) = value depth cs :=
  value_congr (skipBlank_lineBreak level cs)

theorem value_space (depth : Nat) (cs : List Char) : value depth (' ' :: cs) = value depth cs :=
  value_congr rfl

/-- Nothing but brackets holds other values. -/
theorem value_scalar {depth : Nat} {c : Char} {cs : List Char} (h : Opening c)
    (hc : c ∉ ['[', '\x7b']) : value depth (c :: cs) = scalar? (c :: cs) := by
  simp only [List.mem_cons, List.not_mem_nil, or_false, not_or] at hc
  rw [value.eq_def]
  simp only [h.skipBlank cs]
  split
  next hbracket => exact absurd (List.cons.inj hbracket).1 hc.1
  next hbrace => exact absurd (List.cons.inj hbrace).1 hc.2
  next hbracket => exact absurd (List.cons.inj hbracket).1 hc.1
  next hbrace => exact absurd (List.cons.inj hbrace).1 hc.2
  next => rfl

theorem value_emptyArray (inner : Nat) (rest : List Char) :
    value (inner + 1) ('[' :: ']' :: rest) = some (.array [], rest) := rfl

theorem value_items {inner : Nat} {cs : List Char} (h : ∀ rest, skipBlank cs ≠ ']' :: rest) :
    value (inner + 1) ('[' :: cs) =
      (items (value inner) cs.length cs).map fun r => (.array r.1, r.2) := by
  have hbracket : skipBlank ('[' :: cs) = '[' :: cs := rfl
  rw [value.eq_def]
  -- `h` rules out that the bracket is closed
  simp only [hbracket]

theorem value_emptyObject (inner : Nat) (rest : List Char) :
    value (inner + 1) ('\x7b' :: '\x7d' :: rest) = some (.object [], rest) := rfl

theorem value_members {inner : Nat} {cs : List Char} (h : ∀ rest, skipBlank cs ≠ '\x7d' :: rest) :
    value (inner + 1) ('\x7b' :: cs) =
      (members textBody (fun _ => value inner) cs.length cs).map fun r => (.object r.1, r.2) := by
  have hbrace : skipBlank ('\x7b' :: cs) = '\x7b' :: cs := rfl
  rw [value.eq_def]
  simp only [hbrace]

/-! ## Written forms -/

theorem toList_pretty_array (level : Nat) (j : Json) (rest : List Json) :
    (pretty level (.array (j :: rest))).toList =
      '[' :: ((prettyItems (level + 1) (j :: rest)).toList ++ ((lineBreak level).toList ++ [']'])) := by
  simp [pretty]

theorem toList_pretty_object (level : Nat) (m : String × Json) (rest : List (String × Json)) :
    (pretty level (.object (m :: rest))).toList =
      '\x7b' :: ((prettyMembers (level + 1) (m :: rest)).toList ++
        ((lineBreak level).toList ++ ['\x7d'])) := by
  simp [pretty]

theorem exists_head_pretty {j : Json} (hj : j.Exact) (level : Nat) :
    ∃ c cs, (pretty level j).toList = c :: cs ∧ Opening c := by
  cases hj with
  | null => exact ⟨'n', ['u', 'l', 'l'], by simp [pretty], by decide⟩
  | @bool b =>
      cases b with
      | true => exact ⟨'t', ['r', 'u', 'e'], by simp [pretty], by decide⟩
      | false => exact ⟨'f', ['a', 'l', 's', 'e'], by simp [pretty], by decide⟩
  | number hn =>
      obtain ⟨c, cs, hcs, hc⟩ := exists_head_text hn
      exact ⟨c, cs, by rw [pretty, hcs], not_mem_of_number hc (by decide)⟩
  | text => exact ⟨'"', _, by rw [pretty, toList_quote], by decide⟩
  | @array items _ =>
      cases items with
      | nil => exact ⟨'[', [']'], by simp [pretty], by decide⟩
      | cons j rest => exact ⟨'[', _, toList_pretty_array level j rest, by decide⟩
  | @object members _ =>
      cases members with
      | nil => exact ⟨'\x7b', ['\x7d'], by simp [pretty], by decide⟩
      | cons m rest => exact ⟨'\x7b', _, toList_pretty_object level m rest, by decide⟩

/-! ## Lists -/

/-- The items of an array are read back when each of them is. -/
theorem items_pretty {item : List Char → Option (Json × List Char)} {level outer fuel : Nat}
    {j : Json} {js : List Json} {rest : List Char}
    (hitem : ∀ i ∈ j :: js, ∀ rest, Delimited rest →
      item ((lineBreak level).toList ++ ((pretty level i).toList ++ rest)) = some (i, rest))
    (hfuel : js.length < fuel) :
    items item fuel ((prettyItems level (j :: js)).toList ++
      ((lineBreak outer).toList ++ ']' :: rest)) = some (j :: js, rest) := by
  induction js generalizing j fuel with
  | nil =>
      obtain ⟨spare, rfl⟩ := Nat.exists_eq_add_of_lt hfuel
      have hj := hitem j List.mem_cons_self _ (delimited_lineBreak outer (']' :: rest))
      rw [prettyItems, String.toList_append, List.append_assoc, items, hj]
      simp only [skipBlank_lineBreak]
      rfl
  | cons i js ih =>
      obtain ⟨spare, rfl⟩ := Nat.exists_eq_add_of_lt hfuel
      have hless : js.length < (i :: js).length + spare := by simp; omega
      have hrest := ih (fun i hi => hitem i (List.mem_cons_of_mem j hi)) hless
      have htext : (prettyItems level (j :: i :: js)).toList = (lineBreak level).toList ++
          ((pretty level j).toList ++ ',' :: (prettyItems level (i :: js)).toList) := by
        simp [prettyItems]
      rw [htext, List.append_assoc, List.append_assoc, List.cons_append, items,
        hitem j List.mem_cons_self _ (delimited_comma _)]
      show (items item _ _).map _ = _
      rw [hrest]
      rfl

theorem skipBlank_name (level : Nat) (k : String) (cs : List Char) :
    skipBlank ((lineBreak level).toList ++ ((quote k).toList ++ cs)) =
      '"' :: (k.toList.flatMap escapeChar ++ '"' :: cs) := by
  rw [skipBlank_lineBreak, toList_quote]
  simp [skipBlank]

section Members
variable {item : String → List Char → Option (Json × List Char)} {fuel level : Nat} {k : String}
  {j : Json} {cs rest : List Char}

theorem members_more (hitem : item k cs = some (j, ',' :: rest)) :
    members textBody item (fuel + 1)
      ((lineBreak level).toList ++ ((quote k).toList ++ ':' :: cs)) =
      (members textBody item fuel rest).map fun r => ((k, j) :: r.1, r.2) := by
  have hcolon : skipBlank (':' :: cs) = ':' :: cs := rfl
  have hcomma : skipBlank (',' :: rest) = ',' :: rest := rfl
  rw [members, skipBlank_name]
  simp only [textBody_flatMap, hcolon, String.ofList_toList, hitem, hcomma]

theorem members_last {more : List Char} (hitem : item k cs = some (j, more))
    (hclosed : skipBlank more = '\x7d' :: rest) :
    members textBody item (fuel + 1)
      ((lineBreak level).toList ++ ((quote k).toList ++ ':' :: cs)) = some ([(k, j)], rest) := by
  have hcolon : skipBlank (':' :: cs) = ':' :: cs := rfl
  rw [members, skipBlank_name]
  simp only [textBody_flatMap, hcolon, String.ofList_toList, hitem, hclosed]

end Members

/-- The members of an object are read back when each of their values is. -/
theorem members_pretty {item : String → List Char → Option (Json × List Char)}
    {level outer fuel : Nat} {m : String × Json} {ms : List (String × Json)} {rest : List Char}
    (hitem : ∀ i ∈ m :: ms, ∀ rest, Delimited rest →
      item i.1 (' ' :: ((pretty level i.2).toList ++ rest)) = some (i.2, rest))
    (hfuel : ms.length < fuel) :
    members textBody item fuel ((prettyMembers level (m :: ms)).toList ++
      ((lineBreak outer).toList ++ '\x7d' :: rest)) = some (m :: ms, rest) := by
  induction ms generalizing m fuel with
  | nil =>
      obtain ⟨spare, rfl⟩ := Nat.exists_eq_add_of_lt hfuel
      have hm := hitem m List.mem_cons_self _ (delimited_lineBreak outer ('\x7d' :: rest))
      have htext : (prettyMembers level [m]).toList = (lineBreak level).toList ++
          ((quote m.1).toList ++ ':' :: ' ' :: (pretty level m.2).toList) := by
        simp [prettyMembers]
      rw [htext]
      simp only [List.append_assoc, List.cons_append]
      exact members_last hm (skipBlank_lineBreak outer ('\x7d' :: rest))
  | cons i ms ih =>
      obtain ⟨spare, rfl⟩ := Nat.exists_eq_add_of_lt hfuel
      have hless : ms.length < (i :: ms).length + spare := by simp; omega
      have hrest := ih (fun i hi => hitem i (List.mem_cons_of_mem m hi)) hless
      have hm := hitem m List.mem_cons_self _ (delimited_comma
        ((prettyMembers level (i :: ms)).toList ++ ((lineBreak outer).toList ++ '\x7d' :: rest)))
      have htext : (prettyMembers level (m :: i :: ms)).toList = (lineBreak level).toList ++
          ((quote m.1).toList ++ ':' :: ' ' :: ((pretty level m.2).toList ++
            ',' :: (prettyMembers level (i :: ms)).toList)) := by
        simp [prettyMembers]
      rw [htext]
      simp only [List.append_assoc, List.cons_append]
      rw [members_more hm, hrest]
      rfl

theorem length_lt_prettyItems (level : Nat) (j : Json) (js : List Json) :
    js.length < (prettyItems level (j :: js)).toList.length := by
  induction js generalizing j with
  | nil => simp [prettyItems, lineBreak]
  | cons i js ih =>
      have hrest := ih i
      simp only [prettyItems, String.toList_append, List.length_append, List.length_cons] at hrest ⊢
      have hcomma : ",".toList.length = 1 := rfl
      omega

theorem length_lt_prettyMembers (level : Nat) (m : String × Json) (ms : List (String × Json)) :
    ms.length < (prettyMembers level (m :: ms)).toList.length := by
  induction ms generalizing m with
  | nil => simp [prettyMembers, lineBreak]
  | cons i ms ih =>
      have hrest := ih i
      simp only [prettyMembers, String.toList_append, List.length_append, List.length_cons]
        at hrest ⊢
      have hcomma : ",".toList.length = 1 := rfl
      omega

theorem exists_toList_prettyItems (level : Nat) (j : Json) (js : List Json) :
    ∃ more, (prettyItems level (j :: js)).toList =
      (lineBreak level).toList ++ ((pretty level j).toList ++ more) := by
  cases js with
  | nil => exact ⟨[], by simp [prettyItems]⟩
  | cons i js => exact ⟨',' :: (prettyItems level (i :: js)).toList, by simp [prettyItems]⟩

theorem exists_toList_prettyMembers (level : Nat) (m : String × Json) (ms : List (String × Json)) :
    ∃ more, (prettyMembers level (m :: ms)).toList =
      (lineBreak level).toList ++ ((quote m.1).toList ++ more) := by
  cases ms with
  | nil => exact ⟨_, by simp only [prettyMembers, String.toList_append, List.append_assoc]; rfl⟩
  | cons i ms => exact ⟨_, by simp only [prettyMembers, String.toList_append, List.append_assoc]; rfl⟩

theorem skipBlank_prettyItems {j : Json} (hj : j.Exact) (level : Nat) (js : List Json)
    (cs rest : List Char) : skipBlank ((prettyItems level (j :: js)).toList ++ cs) ≠ ']' :: rest := by
  obtain ⟨c, ds, hds, hc⟩ := exists_head_pretty hj level
  obtain ⟨more, hmore⟩ := exists_toList_prettyItems level j js
  rw [hmore, hds, List.append_assoc, skipBlank_lineBreak, List.append_assoc, List.cons_append,
    hc.skipBlank]
  intro hclosed
  rw [(List.cons.inj hclosed).1] at hc
  exact absurd hc (by decide)

theorem skipBlank_prettyMembers (level : Nat) (m : String × Json) (ms : List (String × Json))
    (cs rest : List Char) :
    skipBlank ((prettyMembers level (m :: ms)).toList ++ cs) ≠ '\x7d' :: rest := by
  obtain ⟨more, hmore⟩ := exists_toList_prettyMembers level m ms
  rw [hmore, List.append_assoc, List.append_assoc, skipBlank_name]
  intro hclosed
  exact absurd (List.cons.inj hclosed).1 (by decide)

/-! ## Values -/

section Value
variable {inner level : Nat} {rest : List Char}

theorem value_array {items : List Json} (hitems : ∀ j ∈ items, j.Exact)
    (hread : ∀ j ∈ items, ∀ {level : Nat} {rest : List Char}, Delimited rest →
      value inner ((pretty level j).toList ++ rest) = some (j, rest)) :
    value (inner + 1) ((pretty level (.array items)).toList ++ rest) =
      some (.array items, rest) := by
  cases items with
  | nil =>
      have htext : (pretty level (array [])).toList ++ rest = '[' :: ']' :: rest := by
        simp [pretty]
      rw [htext, value_emptyArray]
  | cons j js =>
      have hitem : ∀ i ∈ j :: js, ∀ rest, Delimited rest → value inner
          ((lineBreak (level + 1)).toList ++ ((pretty (level + 1) i).toList ++ rest)) =
            some (i, rest) := by
        intro i hi rest hrest
        rw [value_lineBreak]
        exact hread i hi hrest
      have hfuel := length_lt_prettyItems (level + 1) j js
      rw [toList_pretty_array, List.cons_append, List.append_assoc, List.append_assoc,
        value_items (skipBlank_prettyItems (hitems j List.mem_cons_self) _ _ _),
        List.cons_append, List.nil_append,
        items_pretty hitem (by simp only [List.length_append]; omega)]
      rfl

theorem value_object {members : List (String × Json)}
    (hread : ∀ m ∈ members, ∀ {level : Nat} {rest : List Char}, Delimited rest →
      value inner ((pretty level m.2).toList ++ rest) = some (m.2, rest)) :
    value (inner + 1) ((pretty level (.object members)).toList ++ rest) =
      some (.object members, rest) := by
  cases members with
  | nil =>
      have htext : (pretty level (object [])).toList ++ rest = '\x7b' :: '\x7d' :: rest := by
        simp [pretty]
      rw [htext, value_emptyObject]
  | cons m ms =>
      have hitem : ∀ i ∈ m :: ms, ∀ rest, Delimited rest →
          value inner (' ' :: ((pretty (level + 1) i.2).toList ++ rest)) = some (i.2, rest) := by
        intro i hi rest hrest
        rw [value_space]
        exact hread i hi hrest
      have hfuel := length_lt_prettyMembers (level + 1) m ms
      rw [toList_pretty_object, List.cons_append, List.append_assoc, List.append_assoc,
        value_members (skipBlank_prettyMembers _ _ _ _), List.cons_append, List.nil_append,
        members_pretty hitem (by simp only [List.length_append]; omega)]
      rfl

end Value

/-- A value is read back on whatever level it stands, if the reader may go as deep. -/
theorem value_pretty {j : Json} (hj : j.Exact) {depth level : Nat} {rest : List Char}
    (hdepth : j.height ≤ depth) (hrest : Delimited rest) :
    value depth ((pretty level j).toList ++ rest) = some (j, rest) := by
  induction hj generalizing depth level rest with
  | null =>
      have htext : (pretty level null).toList ++ rest = 'n' :: 'u' :: 'l' :: 'l' :: rest := by
        simp [pretty]
      rw [htext, value_scalar (by decide) (by decide)]
      rfl
  | @bool b =>
      cases b with
      | true =>
          have htext : (pretty level (bool true)).toList ++ rest =
              't' :: 'r' :: 'u' :: 'e' :: rest := by
            simp [pretty]
          rw [htext, value_scalar (by decide) (by decide)]
          rfl
      | false =>
          have htext : (pretty level (bool false)).toList ++ rest =
              'f' :: 'a' :: 'l' :: 's' :: 'e' :: rest := by
            simp [pretty]
          rw [htext, value_scalar (by decide) (by decide)]
          rfl
  | number hn =>
      obtain ⟨c, cs, hcs, hc⟩ := exists_head_text hn
      have hscalar := scalar?_text hn hrest
      rw [hcs, List.cons_append] at hscalar
      rw [pretty, hcs, List.cons_append, value_scalar (not_mem_of_number hc (by decide))
        (not_mem_of_number hc (by decide)), hscalar]
  | @text s =>
      have hscalar := scalar?_quote s rest
      rw [toList_quote, List.cons_append] at hscalar
      rw [pretty, toList_quote, List.cons_append, value_scalar (by decide) (by decide), hscalar]
  | @array items hitems ih =>
      -- a bracket takes one of the levels that the reader may still go down
      obtain ⟨inner, rfl⟩ := Nat.exists_eq_add_of_le' (Nat.le_trans (Nat.le_add_left 1 _) hdepth)
      have hinner : heightItems items ≤ inner := Nat.le_of_succ_le_succ hdepth
      exact value_array hitems fun j hj =>
        ih j hj (Nat.le_trans (height_le_heightItems hj) hinner)
  | @object members _ ih =>
      obtain ⟨inner, rfl⟩ := Nat.exists_eq_add_of_le' (Nat.le_trans (Nat.le_add_left 1 _) hdepth)
      have hinner : heightMembers members ≤ inner := Nat.le_of_succ_le_succ hdepth
      exact value_object fun m hm =>
        ih m hm (Nat.le_trans (height_le_heightMembers hm) hinner)

/-! ## Whole texts -/

theorem parseFor?_members {names : List String} {s : String} {cs : List Char}
    {ms : List (String × Json)} (hs : s.toList = '\x7b' :: cs)
    (hopen : ∀ rest, skipBlank cs ≠ '\x7d' :: rest)
    (hms : members textBody (fun name cs => if name ∈ names then value (maxDepth - 1) cs
      else skim cs.length cs) cs.length cs = some (ms, [])) :
    parseFor? names s = some (.object ms) := by
  have hbrace : skipBlank ('\x7b' :: cs) = '\x7b' :: cs := rfl
  rw [parseFor?, hs, hbrace]
  simp only [hms]
  rfl

/-- An object whose members are all asked for is read back from its text. -/
theorem parseFor?_pretty {names : List String} {members : List (String × Json)}
    (hmembers : ∀ m ∈ members, m.2.Exact) (hnames : ∀ m ∈ members, m.1 ∈ names)
    (hdepth : (object members).height ≤ maxDepth) :
    parseFor? names (pretty 0 (object members)) = some (object members) := by
  cases members with
  | nil =>
      have htext : (pretty 0 (object [])).toList = ['\x7b', '\x7d'] := by
        simp [pretty]
      rw [parseFor?, htext]
      rfl
  | cons m ms =>
      have hinner : heightMembers (m :: ms) ≤ maxDepth - 1 := Nat.le_sub_one_of_lt hdepth
      have hitem : ∀ i ∈ m :: ms, ∀ rest, Delimited rest →
          (fun (name : String) cs => if name ∈ names then value (maxDepth - 1) cs
            else skim cs.length cs) i.1 (' ' :: ((pretty 1 i.2).toList ++ rest)) = some (i.2, rest) := by
        intro i hi rest hrest
        show (if i.1 ∈ names then _ else _) = _
        rw [if_pos (hnames i hi), value_space]
        exact value_pretty (hmembers i hi) (Nat.le_trans (height_le_heightMembers hi) hinner) hrest
      have hfuel := length_lt_prettyMembers (0 + 1) m ms
      exact parseFor?_members (toList_pretty_object 0 m ms) (skipBlank_prettyMembers _ _ _ _)
        (members_pretty hitem (by simp only [List.length_append]; omega))

end Dataflow.Json
