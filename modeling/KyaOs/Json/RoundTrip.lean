import KyaOs.Json.Text
import Mathlib.Tactic.IntervalCases

/-!
# Reading a value's text back

`parse (stringify v)` is `v` with every infinity read as `null`, so two values
with one text hold the same nodes at the same paths, infinities aside.
-/

open Js

namespace Json

theorem hexValue_hexDigit {n : Nat} (h : n < 16) : hexValue (hexDigit n) = some n := by
  interval_cases n <;> decide

theorem shortEscape?_some {u letter : UInt16} (h : shortEscape? u = some letter) :
    longEscape? letter = some u ∧ letter ≠ 0x75 := by
  unfold shortEscape? at h
  simp only [List.lookup_cons] at h
  repeat' split at h
  all_goals first
    | cases h; simp_all; decide
    | cases h

theorem shortEscape?_none {u : UInt16} (h : shortEscape? u = none) : u ≠ 0x22 ∧ u ≠ 0x5C := by
  constructor <;> rintro rfl <;> revert h <;> decide

@[simp] theorem parseUnits_close (rest : JsString) :
    parseUnits (0x22 :: rest) = some ([], rest) := by
  rw [parseUnits.eq_def]
  rfl

theorem parseUnits_short {letter u : UInt16} (hletter : letter ≠ 0x75)
    (h : longEscape? letter = some u) (rest : JsString) :
    parseUnits (0x5C :: letter :: rest) =
      (parseUnits rest).map fun (s, after) => (u :: s, after) := by
  rw [parseUnits.eq_def]
  simp [hletter, h]

theorem parseUnits_unicode (u : UInt16) (rest : JsString) :
    parseUnits (unicodeEscape u ++ rest) =
      (parseUnits rest).map fun (s, after) => (u :: s, after) := by
  have hu := u.toNat_lt
  have hdigits : UInt16.ofNat (4096 * (u.toNat / 4096) + 256 * (u.toNat / 256 % 16) +
      16 * (u.toNat / 16 % 16) + u.toNat % 16) = u := by
    rw [← UInt16.toNat_inj, UInt16.toNat_ofNat']
    omega
  simp only [unicodeEscape, List.cons_append, List.nil_append]
  rw [parseUnits.eq_def]
  simp only [hexValue_hexDigit (show u.toNat / 4096 < 16 by omega),
    hexValue_hexDigit (show u.toNat / 256 % 16 < 16 by omega),
    hexValue_hexDigit (show u.toNat / 16 % 16 < 16 by omega),
    hexValue_hexDigit (show u.toNat % 16 < 16 by omega), Option.bind_eq_bind, Option.bind_some,
    hdigits]
  rfl

theorem parseUnits_plain {u : UInt16} (hclose : u ≠ 0x22) (hescape : u ≠ 0x5C) (hspace : ¬ u < 0x20)
    (rest : JsString) :
    parseUnits (u :: rest) = (parseUnits rest).map fun (s, after) => (u :: s, after) := by
  rw [parseUnits.eq_def]
  simp only [hclose, hescape, hspace, if_false]

theorem parseUnits_quoteUnit (u : UInt16) (rest : JsString) :
    parseUnits (quoteUnit u ++ rest) =
      (parseUnits rest).map fun (s, after) => (u :: s, after) := by
  unfold quoteUnit
  split
  · rename_i letter hshort
    obtain ⟨hlong, hletter⟩ := shortEscape?_some hshort
    exact parseUnits_short hletter hlong rest
  · rename_i hshort
    obtain ⟨hclose, hescape⟩ := shortEscape?_none hshort
    split
    · exact parseUnits_unicode u rest
    · rename_i hplain
      exact parseUnits_plain hclose hescape (fun hspace => hplain (by simp [hspace])) rest

/-- Half of a surrogate pair is written as it is. -/
theorem parseUnits_surrogate {u : UInt16}
    (h : isLeadSurrogate u = true ∨ isTrailSurrogate u = true) (rest : JsString) :
    parseUnits (u :: rest) = (parseUnits rest).map fun (s, after) => (u :: s, after) := by
  have hlarge : 0xD800 ≤ u.toNat := by
    simp only [isLeadSurrogate, isTrailSurrogate, Bool.and_eq_true, decide_eq_true_eq,
      UInt16.le_iff_toNat_le, UInt16.reduceToNat] at h
    omega
  refine parseUnits_plain ?_ ?_ ?_ rest
  · rintro rfl
    simp at hlarge
  · rintro rfl
    simp at hlarge
  · rw [UInt16.lt_iff_toNat_lt]
    simp only [UInt16.reduceToNat]
    omega

theorem parseUnits_quoteUnits (s rest : JsString) :
    parseUnits (quoteUnits s ++ 0x22 :: rest) = some (s, rest) := by
  induction s using quoteUnits.induct with
  | case1 => exact parseUnits_close rest
  | case2 u => simp [quoteUnits, parseUnits_quoteUnit]
  | case3 u v s hpair ih =>
      obtain ⟨hlead, htrail⟩ := Bool.and_eq_true_iff.mp hpair
      rw [quoteUnits, if_pos hpair, List.cons_append, List.cons_append,
        parseUnits_surrogate (.inl hlead), parseUnits_surrogate (.inr htrail), ih]
      rfl
  | case4 u v s hpair ih =>
      rw [quoteUnits, if_neg hpair, List.append_assoc, parseUnits_quoteUnit, ih]
      rfl

/-- The text goes on with a unit that ends a number. -/
def EndsNumber (rest : JsString) : Prop := ∀ u ∈ rest.head?, isNumberUnit u = false

theorem parseNumber_append (text : NumberText) {rest : JsString} (h : EndsNumber rest) :
    parseNumber (text.1 ++ rest) = some (.number (.finite text), rest) := by
  have hall : text.1.all isNumberUnit = true := (Bool.and_eq_true_iff.mp text.2).1
  have htake : (text.1 ++ rest).takeWhile isNumberUnit = text.1 := by
    rw [List.takeWhile_append_of_pos (by simpa using hall)]
    match rest, h with
    | [], _ => simp
    | u :: rest, h => simp [h u rfl]
  have hdrop : (text.1 ++ rest).dropWhile isNumberUnit = rest := by
    rw [List.dropWhile_append_of_pos (by simpa using hall)]
    match rest, h with
    | [], _ => simp
    | u :: rest, h => simp [h u rfl]
  simp only [parseNumber, htake, hdrop, text.2, dif_pos]

mutual

/-- What a value's text shows of it: an infinity is written as `null`. -/
def shown : Json → Json
  | .null => .null
  | .bool b => .bool b
  | .number (.finite text) => .number (.finite text)
  | .number (.infinity _) => .null
  | .string s => .string s
  | .array items => .array (shownItems items)
  | .object members => .object (shownMembers members)

def shownItems : List Json → List Json
  | [] => []
  | item :: rest => shown item :: shownItems rest

def shownMembers : List (JsString × Json) → List (JsString × Json)
  | [] => []
  | (name, v) :: rest => (name, shown v) :: shownMembers rest

end

/-- How the text of a value can begin. -/
def StartsValue (u : UInt16) : Prop :=
  u = 0x6E ∨ u = 0x74 ∨ u = 0x66 ∨ u = 0x22 ∨ u = 0x5B ∨ u = 0x7B ∨ isNumberUnit u = true

theorem stringify_head (v : Json) : ∃ u rest, stringify v = u :: rest ∧ StartsValue u := by
  cases v with
  | null => exact ⟨_, _, rfl, .inl rfl⟩
  | bool b =>
      cases b with
      | true => exact ⟨_, _, rfl, .inr (.inl rfl)⟩
      | false => exact ⟨_, _, rfl, .inr (.inr (.inl rfl))⟩
  | number n =>
      match n with
      | .infinity _ => exact ⟨_, _, rfl, .inl rfl⟩
      | .finite ⟨[], h⟩ => cases h
      | .finite ⟨u :: rest, h⟩ =>
          refine ⟨u, rest, rfl, ?_⟩
          have hall := (Bool.and_eq_true_iff.mp h).1
          rw [List.all_cons, Bool.and_eq_true_iff] at hall
          simp [StartsValue, hall.1]
  | string s => exact ⟨_, _, rfl, by simp [StartsValue]⟩
  | array items => exact ⟨_, _, rfl, by simp [StartsValue]⟩
  | object members => exact ⟨_, _, rfl, by simp [StartsValue]⟩

instance (u : UInt16) : Decidable (StartsValue u) :=
  inferInstanceAs (Decidable (_ ∨ _))

theorem skipSpace_of_startsValue {u : UInt16} (h : StartsValue u) (rest : JsString) :
    skipSpace (u :: rest) = u :: rest := by
  have hspaces : (js " \t\n\r").all (fun c => ¬ StartsValue c) = true := by decide +kernel
  rw [skipSpace, List.dropWhile_cons_of_neg]
  simpa using fun hmem => of_decide_eq_true (List.all_eq_true.mp hspaces u hmem) h

theorem punctuator_self {u : UInt16} (h : u ∉ js " \t\n\r") (rest : JsString) :
    punctuator u (u :: rest) = some rest := by
  rw [punctuator, skipSpace, List.dropWhile_cons_of_neg (by simpa using h)]
  exact if_pos rfl

theorem punctuator_other {u v : UInt16} (h : v ∉ js " \t\n\r") (hne : v ≠ u) (rest : JsString) :
    punctuator u (v :: rest) = none := by
  rw [punctuator, skipSpace, List.dropWhile_cons_of_neg (by simpa using h)]
  exact if_neg hne

theorem endsNumber_cons {u : UInt16} (h : isNumberUnit u = false) (rest : JsString) :
    EndsNumber (u :: rest) := by
  simpa [EndsNumber] using h

/-- The value's text, with enough fuel for its length, reads back as what it shows. -/
def Reads (v : Json) : Prop :=
  ∀ fuel rest, (stringify v).length ≤ fuel → EndsNumber rest →
    parseValue fuel (stringify v ++ rest) = some (shown v, rest)

theorem parseItems_stringifyItems {items : List Json} (hne : items ≠ [])
    (h : ∀ item ∈ items, Reads item) (fuel : Nat) (rest : JsString)
    (hfuel : (stringifyItems items).length < fuel) :
    parseItems fuel (stringifyItems items ++ 0x5D :: rest) = some (shownItems items, rest) := by
  induction items generalizing fuel with
  | nil => exact absurd rfl hne
  | cons item items ih =>
      obtain ⟨fuel, rfl⟩ := Nat.exists_eq_add_one_of_ne_zero (show fuel ≠ 0 by omega)
      cases items with
      | nil =>
          have hitem := h item (by simp) fuel (0x5D :: rest)
            (by simp only [stringifyItems] at hfuel; omega) (endsNumber_cons (by decide) _)
          simp only [stringifyItems, parseItems, hitem, Option.bind_eq_bind, Option.bind_some,
            punctuator_self (show (0x5D : UInt16) ∉ js " \t\n\r" by decide)]
          rfl
      | cons next items =>
          simp only [stringifyItems, List.length_append, List.length_cons] at hfuel
          have hitem := h item (by simp) fuel
            (0x2C :: (stringifyItems (next :: items) ++ 0x5D :: rest)) (by omega)
            (endsNumber_cons (by decide) _)
          have hitems := ih (by simp) (fun v hv => h v (by simp [hv])) fuel (by omega)
          simp only [stringifyItems, List.append_assoc, List.cons_append, parseItems, hitem,
            Option.bind_eq_bind, Option.bind_some,
            punctuator_other (show (0x2C : UInt16) ∉ js " \t\n\r" by decide)
              (show (0x2C : UInt16) ≠ 0x5D by decide),
            punctuator_self (show (0x2C : UInt16) ∉ js " \t\n\r" by decide), hitems]
          rfl

theorem setMember_fresh {name : JsString} {v : Json} {members : List (JsString × Json)}
    (h : name ∉ members.map Prod.fst) : setMember name v members = members ++ [(name, v)] := by
  induction members with
  | nil => rfl
  | cons member rest ih =>
      obtain ⟨name', v'⟩ := member
      simp only [List.map_cons, List.mem_cons, not_or] at h
      rw [setMember, if_neg (Ne.symm h.1), ih h.2, List.cons_append]

theorem parseMembers_stringifyMembers {members : List (JsString × Json)} (hne : members ≠ [])
    (h : ∀ member ∈ members, Reads member.2) (fuel : Nat) (read : List (JsString × Json))
    (rest : JsString) (hkeys : (read.map Prod.fst ++ members.map Prod.fst).Nodup)
    (hfuel : (stringifyMembers members).length < fuel) :
    parseMembers fuel read (stringifyMembers members ++ 0x7D :: rest) =
      some (read ++ shownMembers members, rest) := by
  induction members generalizing fuel read with
  | nil => exact absurd rfl hne
  | cons member members ih =>
      obtain ⟨name, v⟩ := member
      obtain ⟨fuel, rfl⟩ := Nat.exists_eq_add_one_of_ne_zero (show fuel ≠ 0 by omega)
      have hfresh : name ∉ read.map Prod.fst := fun hmem =>
        (List.nodup_append.mp hkeys).2.2 name hmem name (by simp) rfl
      cases members with
      | nil =>
          simp only [stringifyMembers, List.length_append, List.length_cons] at hfuel
          have hv := h (name, v) (by simp) fuel (0x7D :: rest) (by simp only; omega)
            (endsNumber_cons (by decide) _)
          simp only [stringifyMembers, quote, List.append_assoc, List.cons_append, List.nil_append,
            parseMembers, Option.bind_eq_bind, Option.bind_some,
            punctuator_self (show (0x22 : UInt16) ∉ js " \t\n\r" by decide),
            parseUnits_quoteUnits,
            punctuator_self (show (0x3A : UInt16) ∉ js " \t\n\r" by decide), hv,
            punctuator_self (show (0x7D : UInt16) ∉ js " \t\n\r" by decide),
            setMember_fresh hfresh]
          rfl
      | cons next members =>
          simp only [stringifyMembers, List.length_append, List.length_cons] at hfuel
          have hv := h (name, v) (by simp) fuel
            (0x2C :: (stringifyMembers (next :: members) ++ 0x7D :: rest)) (by simp only; omega)
            (endsNumber_cons (by decide) _)
          have hmembers := ih (by simp) (fun m hm => h m (by simp [hm])) fuel
            (read ++ [(name, shown v)]) (by simpa using hkeys) (by omega)
          simp only [stringifyMembers, quote, List.append_assoc, List.cons_append, List.nil_append,
            parseMembers, Option.bind_eq_bind, Option.bind_some,
            punctuator_self (show (0x22 : UInt16) ∉ js " \t\n\r" by decide),
            parseUnits_quoteUnits,
            punctuator_self (show (0x3A : UInt16) ∉ js " \t\n\r" by decide), hv,
            punctuator_other (show (0x2C : UInt16) ∉ js " \t\n\r" by decide)
              (show (0x2C : UInt16) ≠ 0x7D by decide),
            punctuator_self (show (0x2C : UInt16) ∉ js " \t\n\r" by decide),
            setMember_fresh hfresh]
          rw [hmembers, List.append_assoc]
          rfl

theorem parseLiteral_append (literal : JsString) (v : Json) (rest : JsString) :
    parseLiteral literal v (literal ++ rest) = some (v, rest) := by
  rw [parseLiteral, if_pos (startsWith_append literal rest), List.drop_left]

/-- The dispatch of `parseValue`, past the white space. -/
theorem parseValue_cons (fuel : Nat) {u : UInt16} (h : StartsValue u) (rest : JsString) :
    parseValue (fuel + 1) (u :: rest) =
      if u = 0x6E then parseLiteral (js "ull") .null rest
      else if u = 0x74 then parseLiteral (js "rue") (.bool true) rest
      else if u = 0x66 then parseLiteral (js "alse") (.bool false) rest
      else if u = 0x22 then (parseUnits rest).map fun (s, after) => (.string s, after)
      else if u = 0x5B then
        match punctuator 0x5D rest with
        | some after => some (.array [], after)
        | none => (parseItems fuel rest).map fun (items, after) => (.array items, after)
      else if u = 0x7B then
        match punctuator 0x7D rest with
        | some after => some (.object [], after)
        | none => (parseMembers fuel [] rest).map fun (members, after) => (.object members, after)
      else parseNumber (u :: rest) := by
  rewrite [parseValue, skipSpace_of_startsValue h]
  rfl

theorem stringifyItems_head {items : List Json} (h : items ≠ []) :
    ∃ u rest, stringifyItems items = u :: rest ∧ StartsValue u := by
  match items, h with
  | [item], _ => exact stringify_head item
  | item :: next :: items, _ =>
      obtain ⟨u, rest, hhead, hstarts⟩ := stringify_head item
      exact ⟨u, _, by rw [stringifyItems, hhead]; rfl, hstarts⟩

theorem stringifyMembers_head {members : List (JsString × Json)} (h : members ≠ []) :
    ∃ rest, stringifyMembers members = 0x22 :: rest := by
  match members, h with
  | [(name, v)], _ => exact ⟨_, rfl⟩
  | (name, v) :: next :: members, _ => exact ⟨_, rfl⟩

/-- Fuel for a nonempty text. -/
theorem exists_fuel {v : Json} {fuel : Nat} (h : (stringify v).length ≤ fuel) :
    ∃ fuel', fuel = fuel' + 1 := by
  obtain ⟨u, rest, hhead, -⟩ := stringify_head v
  exact Nat.exists_eq_add_one_of_ne_zero (by rintro rfl; simp [hhead] at h)

theorem reads_number (n : Number) : Reads (.number n) := by
  intro fuel rest hfuel hends
  obtain ⟨fuel, rfl⟩ := exists_fuel hfuel
  match n with
  | .infinity negative =>
      exact (parseValue_cons fuel (u := 0x6E) (by decide) _).trans
        (parseLiteral_append (js "ull") .null rest)
  | .finite ⟨[], h⟩ => cases h
  | .finite ⟨u :: text, h⟩ =>
      have hunit : isNumberUnit u = true := by
        have hall := (Bool.and_eq_true_iff.mp h).1
        rw [List.all_cons, Bool.and_eq_true_iff] at hall
        exact hall.1
      have hother : ∀ c ∈ ([0x6E, 0x74, 0x66, 0x22, 0x5B, 0x7B] : JsString), u ≠ c := by
        have hopeners : ([0x6E, 0x74, 0x66, 0x22, 0x5B, 0x7B] : JsString).all
            (fun c => !isNumberUnit c) = true := by decide +kernel
        rintro c hmem rfl
        have := List.all_eq_true.mp hopeners u hmem
        rw [hunit] at this
        cases this
      simp only [List.forall_mem_cons] at hother
      obtain ⟨h1, h2, h3, h4, h5, h6, -⟩ := hother
      have hstarts : StartsValue u := by simp [StartsValue, hunit]
      have hread := parseNumber_append ⟨u :: text, h⟩ hends
      simp only [stringify, numberText, List.cons_append, shown] at hread ⊢
      rw [parseValue_cons fuel hstarts, if_neg h1, if_neg h2, if_neg h3, if_neg h4, if_neg h5,
        if_neg h6, hread]

/-- The text of a value with distinct member names reads back as what it shows. -/
theorem reads_of_wellFormed {v : Json} (hv : v.WellFormed) : Reads v := by
  induction hv with
  | number n => exact reads_number n
  | null =>
      intro fuel rest hfuel hends
      obtain ⟨fuel, rfl⟩ := exists_fuel hfuel
      exact (parseValue_cons fuel (u := 0x6E) (by decide) _).trans
        (parseLiteral_append (js "ull") .null rest)
  | bool b =>
      intro fuel rest hfuel hends
      obtain ⟨fuel, rfl⟩ := exists_fuel hfuel
      cases b with
      | true =>
          exact (parseValue_cons fuel (u := 0x74) (by decide) _).trans
            (parseLiteral_append (js "rue") (.bool true) rest)
      | false =>
          exact (parseValue_cons fuel (u := 0x66) (by decide) _).trans
            (parseLiteral_append (js "alse") (.bool false) rest)
  | string s =>
      intro fuel rest hfuel hends
      obtain ⟨fuel, rfl⟩ := exists_fuel hfuel
      have hread := parseUnits_quoteUnits s rest
      simp only [stringify, quote, List.cons_append, List.append_assoc, List.nil_append, shown]
      rw [parseValue_cons fuel (by decide)]
      simp [hread]
  | @array items h ih =>
      intro fuel rest hfuel hends
      obtain ⟨fuel, rfl⟩ := exists_fuel hfuel
      simp only [stringify, List.cons_append, List.append_assoc, List.nil_append, shown]
      rw [parseValue_cons fuel (by decide)]
      rcases List.eq_nil_or_concat' items with rfl | hne
      · simp [stringifyItems, shownItems,
          punctuator_self (show (0x5D : UInt16) ∉ js " \t\n\r" by decide)]
      · have hne : items ≠ [] := by rintro rfl; simp at hne
        obtain ⟨u, text, hhead, hstarts⟩ := stringifyItems_head hne
        have hclose : punctuator 0x5D (stringifyItems items ++ 0x5D :: rest) = none := by
          rw [hhead, List.cons_append, punctuator, skipSpace_of_startsValue hstarts]
          refine if_neg ?_
          rintro rfl
          revert hstarts
          decide
        have hitems := parseItems_stringifyItems hne ih fuel rest
          (by simp only [stringify, List.length_append, List.length_cons, List.length_nil] at hfuel
              omega)
        simp [hclose, hitems]
  | @object members hkeys h ih =>
      intro fuel rest hfuel hends
      obtain ⟨fuel, rfl⟩ := exists_fuel hfuel
      simp only [stringify, List.cons_append, List.append_assoc, List.nil_append, shown]
      rw [parseValue_cons fuel (by decide)]
      rcases List.eq_nil_or_concat' members with rfl | hne
      · simp [stringifyMembers, shownMembers,
          punctuator_self (show (0x7D : UInt16) ∉ js " \t\n\r" by decide)]
      · have hne : members ≠ [] := by rintro rfl; simp at hne
        obtain ⟨text, hhead⟩ := stringifyMembers_head hne
        have hclose : punctuator 0x7D (stringifyMembers members ++ 0x7D :: rest) = none := by
          rw [hhead, List.cons_append]
          exact punctuator_other (by decide) (by decide) _
        have hmembers := parseMembers_stringifyMembers hne ih fuel [] rest (by simpa using hkeys)
          (by simp only [stringify, List.length_append, List.length_cons, List.length_nil] at hfuel
              omega)
        simp [hclose, hmembers]

/-- `JSON.parse` of a value's text. -/
theorem parse_stringify {v : Json} (hv : v.WellFormed) : parse (stringify v) = some (shown v) := by
  have hread := reads_of_wellFormed hv (stringify v).length [] le_rfl (by simp [EndsNumber])
  rw [List.append_nil] at hread
  rw [parse, hread]
  rfl

/-- What the text of a node shows. -/
def Node.shown : Node → Node
  | .number (.infinity _) => .null
  | node => node

/-- The same value up to the order of members, as far as its text can tell. -/
def SameShown (v w : Json) : Prop :=
  ∀ path, (v.nodeAt path).map Node.shown = (w.nodeAt path).map Node.shown

/-- The sign of an infinity. -/
def Node.overflow : Node → Option Bool
  | .number (.infinity negative) => some negative
  | _ => none

/-- The sign of the infinity at a path, if there is one. -/
def overflowAt (v : Json) (path : List Step) : Option Bool := (v.nodeAt path).bind Node.overflow

theorem Node.eq_of_shown {m n : Node} (h : m.shown = n.shown)
    (hoverflow : m.overflow = n.overflow) :
    m = n := by
  cases m with
  | number x => cases x <;> cases n with
    | number y => cases y <;> simp_all [Node.shown, Node.overflow]
    | _ => simp_all [Node.shown, Node.overflow]
  | _ => cases n with
    | number y => cases y <;> simp_all [Node.shown, Node.overflow]
    | _ => simp_all [Node.shown]

/-- What text shows, together with the infinities, is the whole value. -/
theorem same_iff_sameShown {v w : Json} :
    Same v w ↔ SameShown v w ∧ ∀ path, overflowAt v path = overflowAt w path := by
  constructor
  · exact fun h => ⟨fun path => by rw [h path], fun path => by rw [overflowAt, overflowAt, h path]⟩
  · rintro ⟨hshown, hoverflow⟩ path
    have hpath := hshown path
    have hsign := hoverflow path
    simp only [overflowAt] at hsign
    cases hv : v.nodeAt path with
    | none => simpa [hv, eq_comm] using hpath
    | some m =>
        cases hw : w.nodeAt path with
        | none => simp [hv, hw] at hpath
        | some n =>
            simp only [hv, hw, Option.map_some, Option.bind_some, Option.some.injEq] at hpath hsign
            rw [Node.eq_of_shown hpath hsign]

@[simp] theorem node_shown (v : Json) : (shown v).node = v.node.shown := by
  cases v with
  | number n => cases n <;> rfl
  | _ => rfl

theorem shownItems_eq (items : List Json) : shownItems items = items.map shown := by
  induction items with
  | nil => rfl
  | cons item rest ih => rw [shownItems, ih, List.map_cons]

theorem lookup_shownMembers (members : List (JsString × Json)) (name : JsString) :
    (shownMembers members).lookup name = (members.lookup name).map shown := by
  induction members with
  | nil => rfl
  | cons member rest ih =>
      obtain ⟨name', v⟩ := member
      simp only [shownMembers, List.lookup_cons, ih]
      split <;> rfl

theorem child_shown (v : Json) (step : Step) : (shown v).child step = (v.child step).map shown := by
  cases v with
  | number n => cases n <;> rfl
  | array items =>
      cases step with
      | index i => simp [shown, child, shownItems_eq]
      | key name => rfl
  | object members =>
      cases step with
      | index i => rfl
      | key name => exact lookup_shownMembers members name
  | _ => rfl

theorem nodeAt_shown (v : Json) (path : List Step) :
    (shown v).nodeAt path = (v.nodeAt path).map Node.shown := by
  induction path generalizing v with
  | nil => simp
  | cons step path ih =>
      rw [nodeAt_cons, nodeAt_cons, child_shown]
      cases v.child step with
      | none => rfl
      | some w => exact ih w

theorem sameShown_of_shown {v w : Json} (h : shown v = shown w) : SameShown v w := by
  intro path
  rw [← nodeAt_shown, ← nodeAt_shown, h]

/-- Values with one text show the same. -/
theorem sameShown_of_stringify {v w : Json} (hv : v.WellFormed) (hw : w.WellFormed)
    (h : stringify v = stringify w) : SameShown v w :=
  sameShown_of_shown (by
    rw [← Option.some.injEq, ← parse_stringify hv, ← parse_stringify hw, h])

end Json
