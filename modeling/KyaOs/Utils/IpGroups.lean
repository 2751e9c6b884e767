import KyaOs.Js.Digits
import KyaOs.Utils.IpClassifier

/-!
# Address literals and their groups

What a dotted quad and an IPv6 literal are, and the bytes they denote, whatever the classifier
does; and how a text of groups is split and its hextets are read.
-/

namespace KyaOs

open Js

/-- Octets as they are printed, with dots between. -/
def dottedQuad (octets : List Nat) : JsString :=
  [0x2E].intercalate (octets.map fun o => js (toString o))

/-- Four octets, without signs, spaces, leading zeros, exponents or another base. -/
structure CanonicalQuad (address : JsString) (octets : List Nat) : Prop where
  length : octets.length = 4
  octet : ∀ o ∈ octets, o < 256
  text : address = dottedQuad octets

/-- Eight groups of one to four hexadecimal digits, or fewer around one `::`. -/
inductive PlainLiteral : JsString → List Nat → Prop where
  | whole {groups : List JsString} {hextets : List Nat}
      (hgroups : groups.mapM readHextet = some hextets) (hlength : hextets.length = 8) :
      PlainLiteral ([0x3A].intercalate groups) hextets
  | compressed {left right : List JsString} {before after : List Nat}
      (hleft : left.mapM readHextet = some before) (hright : right.mapM readHextet = some after)
      (hlength : before.length + after.length < 8) :
      PlainLiteral ([0x3A].intercalate left ++ 0x3A :: 0x3A :: [0x3A].intercalate right)
        (before ++ List.replicate (8 - before.length - after.length) 0 ++ after)

/-- The two hextets of four octets. -/
def quadGroups (octets : List Nat) : JsString :=
  hexText (256 * octets.getD 0 0 + octets.getD 1 0) ++
    0x3A :: hexText (256 * octets.getD 2 0 + octets.getD 3 0)

/-- The last two groups of a literal may be written as a dotted quad. -/
inductive Ipv6Literal : JsString → List Nat → Prop where
  | plain {text : JsString} {hextets : List Nat} (h : PlainLiteral text hextets) :
      Ipv6Literal text hextets
  | mixed {before quad : JsString} {octets hextets : List Nat} (hquad : CanonicalQuad quad octets)
      (h : PlainLiteral (before ++ 0x3A :: quadGroups octets) hextets) :
      Ipv6Literal (before ++ 0x3A :: quad) hextets

def hextetBytes (hextets : List Nat) : List Nat := hextets.flatMap fun h => [h / 256, h % 256]

/-- A literal, with the zone it is of behind a percent sign or without one. -/
def WellFormedIpv6 (address : JsString) (bytes : List Nat) : Prop :=
  ∃ literal hextets, Ipv6Literal literal hextets ∧ bytes = hextetBytes hextets ∧
    (address = literal ∨ ∃ zone, zone ≠ [] ∧ address = literal ++ 0x25 :: zone)

section Splitting

variable {f : UInt16 → UInt16} {sep : UInt16}

theorem splitOn_map (hf : ∀ u, f u = sep ↔ u = sep) (text : JsString) :
    (text.map f).splitOn sep = (text.splitOn sep).map (List.map f) := by
  induction text with
  | nil => rfl
  | cons u rest ih =>
      rw [List.map_cons, List.splitOn_cons_eq_if_modifyHead, List.splitOn_cons_eq_if_modifyHead, ih]
      have hsame : (f u == sep) = (u == sep) := by
        rw [Bool.eq_iff_iff, beq_iff_eq, beq_iff_eq, hf]
      rw [hsame]
      split_ifs
      · rfl
      · cases rest.splitOn sep with
        | nil => rfl
        | cons first others => rfl

/-- A text begins with two colons, or its first unit is no place to split at. -/
theorem doubleColon_ind {P : JsString → Prop} (nil : P [])
    (double : ∀ rest, P rest → P (0x3A :: 0x3A :: rest))
    (single : ∀ u rest, ¬ (u = 0x3A ∧ rest.head? = some 0x3A) → P rest → P (u :: rest))
    (text : JsString) : P text := by
  induction text using splitDoubleColon.induct with
  | case1 => exact nil
  | case2 rest ih => exact double rest ih
  | case3 u rest hsingle _ _ _ ih =>
      refine single u rest ?_ ih
      rintro ⟨hu, hhead⟩
      exact hsingle rest.tail hu (List.eq_cons_of_mem_head? hhead)
  | case4 u rest hsingle _ ih =>
      refine single u rest ?_ ih
      rintro ⟨hu, hhead⟩
      exact hsingle rest.tail hu (List.eq_cons_of_mem_head? hhead)

theorem splitDoubleColon_cons {u : UInt16} {rest : JsString}
    (h : ¬ (u = 0x3A ∧ rest.head? = some 0x3A)) (hne : splitDoubleColon rest ≠ []) :
    splitDoubleColon (u :: rest) = (splitDoubleColon rest).modifyHead (u :: ·) := by
  rw [splitDoubleColon]
  · split
    · rename_i first others hrest
      rw [hrest, List.modifyHead_cons]
    · rename_i hrest
      exact absurd hrest hne
  · rintro rest' rfl rfl
    exact h ⟨rfl, rfl⟩

theorem splitDoubleColon_ne_nil (text : JsString) : splitDoubleColon text ≠ [] := by
  induction text using doubleColon_ind with
  | nil => simp [splitDoubleColon]
  | double rest ih => simp [splitDoubleColon]
  | single u rest hsingle ih =>
      rw [splitDoubleColon_cons hsingle ih]
      simpa using ih

theorem modifyHead_intercalate {sep first : JsString} {parts : List JsString} (h : parts ≠ []) :
    sep.intercalate (parts.modifyHead (first ++ ·)) = first ++ sep.intercalate parts := by
  obtain ⟨part, others, rfl⟩ := List.exists_cons_of_ne_nil h
  rw [List.modifyHead_cons]
  cases others with
  | nil => simp
  | cons other rest => simp [List.intercalate_cons_cons]

theorem intercalate_splitDoubleColon (text : JsString) :
    [0x3A, 0x3A].intercalate (splitDoubleColon text) = text := by
  induction text using doubleColon_ind with
  | nil => rfl
  | double rest ih =>
      rw [splitDoubleColon, List.intercalate_cons_of_ne_nil (splitDoubleColon_ne_nil rest), ih]
      rfl
  | single u rest hsingle ih =>
      have hne := splitDoubleColon_ne_nil rest
      rw [splitDoubleColon_cons hsingle hne]
      exact (@modifyHead_intercalate _ [u] _ hne).trans (congrArg (u :: ·) ih)

theorem splitDoubleColon_map (hf : ∀ u, f u = 0x3A ↔ u = 0x3A) (text : JsString) :
    splitDoubleColon (text.map f) = (splitDoubleColon text).map (List.map f) := by
  have hcolon := (hf 0x3A).mpr rfl
  induction text using doubleColon_ind with
  | nil => rfl
  | double rest ih =>
      rw [List.map_cons, List.map_cons, hcolon, splitDoubleColon, ih, splitDoubleColon]
      rfl
  | single u rest hsingle ih =>
      have hne := splitDoubleColon_ne_nil rest
      have hsingle' : ¬ (f u = 0x3A ∧ (rest.map f).head? = some 0x3A) := by
        rw [List.head?_map, Option.map_eq_some_iff]
        rintro ⟨hu, v, hv, hfv⟩
        exact hsingle ⟨(hf u).mp hu, (hf v).mp hfv ▸ hv⟩
      rw [List.map_cons, splitDoubleColon_cons hsingle' (splitDoubleColon_ne_nil _), ih,
        splitDoubleColon_cons hsingle hne]
      cases splitDoubleColon rest with
      | nil => rfl
      | cons first others => rfl

end Splitting

section Groups

variable {group text rest : JsString} {groups : List JsString} {hextets : List Nat} {n : Nat}

theorem hexValue_colon : Json.hexValue 0x3A = none ∧ Json.hexValue 0x2E = none ∧
    Json.hexValue 0x25 = none := by
  decide

theorem mapM_cons_eq_some {α β : Type} {read : α → Option β} {first : α} {others : List α}
    {values : List β} (h : (first :: others).mapM read = some values) :
    ∃ value rest, read first = some value ∧ others.mapM read = some rest ∧
      values = value :: rest := by
  rw [List.mapM_cons] at h
  obtain ⟨value, hfirst, h⟩ := Option.bind_eq_some_iff.mp h
  obtain ⟨rest, hothers, h⟩ := Option.bind_eq_some_iff.mp h
  exact ⟨value, rest, hfirst, hothers, (Option.some.inj h).symm⟩

/-- What a loop over hexadecimal digits has read. -/
theorem isSome_hexValue_of_foldlM {group : JsString} {n m : Nat}
    (h : group.foldlM (fun n u => (Json.hexValue u).map (16 * n + ·)) n = some m) :
    ∀ u ∈ group, (Json.hexValue u).isSome = true := by
  induction group generalizing n with
  | nil => simp
  | cons u rest ih =>
      rw [List.foldlM_cons] at h
      obtain ⟨value, hvalue, hrest⟩ := Option.bind_eq_some_iff.mp h
      obtain ⟨d, hd, -⟩ := Option.map_eq_some_iff.mp hvalue
      exact List.forall_mem_cons.mpr ⟨Option.isSome_iff_exists.mpr ⟨d, hd⟩, ih hrest⟩

theorem isSome_hexValue_of_readHextet (h : readHextet group = some n) :
    group ≠ [] ∧ ∀ u ∈ group, (Json.hexValue u).isSome = true := by
  rw [readHextet] at h
  split_ifs at h with hlength
  refine ⟨fun hempty => ?_, isSome_hexValue_of_foldlM h⟩
  rw [hempty] at hlength
  exact absurd hlength.1 (by decide)

/-- No group holds a colon, a dot or a percent sign. -/
theorem notMem_of_readHextet (h : readHextet group = some n) {u : UInt16}
    (hu : Json.hexValue u = none) : u ∉ group := by
  intro hmem
  have hsome := (isSome_hexValue_of_readHextet h).2 u hmem
  rw [hu] at hsome
  cases hsome

theorem mem_readHextet (h : groups.mapM readHextet = some hextets) (hmem : group ∈ groups) :
    ∃ n, readHextet group = some n := by
  induction groups generalizing hextets with
  | nil => cases hmem
  | cons first others ih =>
      obtain ⟨n, ns, hfirst, hothers, -⟩ := mapM_cons_eq_some h
      cases List.mem_cons.mp hmem with
      | inl heq => exact ⟨n, heq ▸ hfirst⟩
      | inr hmem => exact ih hothers hmem

theorem head_group (h : readHextet group = some n) (rest : JsString) :
    (group ++ rest).head? ≠ some 0x3A := by
  obtain ⟨hne, -⟩ := isSome_hexValue_of_readHextet h
  rw [List.head?_append_of_ne_nil _ hne]
  intro hhead
  exact notMem_of_readHextet h hexValue_colon.1 (List.mem_of_head? hhead)

/-- Text without a colon goes in front of the first part. -/
theorem splitDoubleColon_append (h : 0x3A ∉ group) (rest : JsString) :
    splitDoubleColon (group ++ rest) = (splitDoubleColon rest).modifyHead (group ++ ·) := by
  induction group with
  | nil => exact (List.modifyHead_id).symm ▸ rfl
  | cons u others ih =>
      rw [List.mem_cons, not_or] at h
      rw [List.cons_append, splitDoubleColon_cons (fun hu => h.1 hu.1.symm)
        (splitDoubleColon_ne_nil _), ih h.2, List.modifyHead_modifyHead]
      rfl

/-- Groups go in front of the first part, whatever follows. -/
theorem splitDoubleColon_groups (h : groups.mapM readHextet = some hextets) (rest : JsString) :
    splitDoubleColon ([0x3A].intercalate groups ++ rest) =
      (splitDoubleColon rest).modifyHead ([0x3A].intercalate groups ++ ·) := by
  induction groups generalizing hextets with
  | nil => exact (List.modifyHead_id).symm ▸ rfl
  | cons group others ih =>
      obtain ⟨n, ns, hgroup, hothers, -⟩ := mapM_cons_eq_some h
      have hcolon := notMem_of_readHextet hgroup hexValue_colon.1
      cases others with
      | nil =>
          rw [List.intercalate_singleton]
          exact splitDoubleColon_append hcolon rest
      | cons second others =>
          obtain ⟨m, hsecond⟩ := mem_readHextet hothers List.mem_cons_self
          have hhead : ([0x3A].intercalate (second :: others) ++ rest).head? ≠ some 0x3A := by
            cases others with
            | nil =>
                rw [List.intercalate_singleton]
                exact head_group hsecond rest
            | cons third others =>
                rw [List.intercalate_cons_cons, List.append_assoc, List.append_assoc]
                exact head_group hsecond _
          rw [List.intercalate_cons_cons, List.append_assoc, List.append_assoc,
            splitDoubleColon_append hcolon, List.singleton_append,
            splitDoubleColon_cons (fun hdouble => hhead hdouble.2) (splitDoubleColon_ne_nil _),
            ih hothers, List.modifyHead_modifyHead, List.modifyHead_modifyHead]
          congr 1
          funext part
          simp

/-- The groups of a side of `::` are read back. -/
theorem readHextets_intercalate (h : groups.mapM readHextet = some hextets) :
    readHextets ([0x3A].intercalate groups) = some hextets := by
  rw [readHextets]
  cases groups with
  | nil => exact h
  | cons group others =>
      obtain ⟨n, hgroup⟩ := mem_readHextet h List.mem_cons_self
      have hne : [0x3A].intercalate (group :: others) ≠ [] := by
        have hgroupNe := (isSome_hexValue_of_readHextet hgroup).1
        cases others with
        | nil => simpa using hgroupNe
        | cons second others => simp [List.intercalate_cons_cons]
      rw [if_neg hne, List.splitOn_intercalate _ _ (by simp), h]
      intro part hpart
      obtain ⟨m, hm⟩ := mem_readHextet h hpart
      exact notMem_of_readHextet hm hexValue_colon.1

theorem exists_groups_of_readHextets (h : readHextets text = some hextets) :
    ∃ groups, text = [0x3A].intercalate groups ∧ groups.mapM readHextet = some hextets := by
  rw [readHextets] at h
  split_ifs at h with hempty
  · exact ⟨[], hempty, h⟩
  · exact ⟨text.splitOn 0x3A, (List.intercalate_splitOn 0x3A).symm, h⟩

/-- What the two sides of `::` are read as is what a literal without a quad denotes. -/
theorem readHalves_iff :
    (readHalves (splitDoubleColon text) = some hextets ∧ hextets.length = 8) ↔
      PlainLiteral text hextets := by
  constructor
  · rintro ⟨h, hlength⟩
    have hjoin := intercalate_splitDoubleColon text
    rw [readHalves.eq_def] at h
    split at h
    · rename_i whole hhalves
      rw [hhalves, List.intercalate_singleton] at hjoin
      obtain ⟨groups, hgroups, hread⟩ := exists_groups_of_readHextets h
      rw [← hjoin, hgroups]
      exact .whole hread hlength
    · rename_i before after hhalves
      obtain ⟨head, hhead, hrest⟩ := Option.bind_eq_some_iff.mp h
      obtain ⟨tail, htail, hfill⟩ := Option.bind_eq_some_iff.mp hrest
      split_ifs at hfill with hless
      obtain rfl := Option.some.inj hfill
      obtain ⟨left, hleft, hreadLeft⟩ := exists_groups_of_readHextets hhead
      obtain ⟨right, hright, hreadRight⟩ := exists_groups_of_readHextets htail
      rw [hhalves, List.intercalate_cons_cons, List.intercalate_singleton, hleft, hright,
        List.append_assoc] at hjoin
      rw [← hjoin]
      exact .compressed hreadLeft hreadRight hless
    · cases h
  · intro h
    cases h with
    | @whole groups _ hgroups hlength =>
        have hsplit := splitDoubleColon_groups hgroups []
        rw [List.append_nil, splitDoubleColon, List.modifyHead_cons, List.append_nil] at hsplit
        rw [hsplit]
        exact ⟨readHextets_intercalate hgroups, hlength⟩
    | @compressed left right before after hleft hright hlength =>
        have hsplit := splitDoubleColon_groups hright []
        rw [List.append_nil, splitDoubleColon, List.modifyHead_cons, List.append_nil] at hsplit
        rw [splitDoubleColon_groups hleft, splitDoubleColon, hsplit, List.modifyHead_cons,
          List.append_nil, readHalves, readHextets_intercalate hleft,
          readHextets_intercalate hright]
        refine ⟨if_pos hlength, ?_⟩
        simp only [List.length_append, List.length_replicate]
        omega

end Groups

section Case

variable {u : UInt16}

theorem toNat_lowerHex (u : UInt16) : (lowerHex u).toNat =
    if 0x41 ≤ u.toNat ∧ u.toNat ≤ 0x5A then u.toNat + 0x20 else u.toNat := by
  have hcond : (0x41 ≤ u ∧ u ≤ 0x5A) ↔ (0x41 ≤ u.toNat ∧ u.toNat ≤ 0x5A) := by
    rw [UInt16.le_iff_toNat_le, UInt16.le_iff_toNat_le]
    rfl
  rw [lowerHex]
  by_cases hupper : 0x41 ≤ u ∧ u ≤ 0x5A
  · have hnat := hcond.mp hupper
    rw [if_pos hupper, if_pos hnat, UInt16.toNat_add]
    exact Nat.mod_eq_of_lt (by simp; omega)
  · rw [if_neg hupper, if_neg (hcond.not.mp hupper)]

/-- No unit before the capitals is a letter's lower case. -/
theorem lowerHex_eq_iff {c : UInt16} (h : c.toNat < 0x41) : lowerHex u = c ↔ u = c := by
  rw [← UInt16.toNat_inj, ← UInt16.toNat_inj, toNat_lowerHex]
  split_ifs <;> omega

theorem isDigit_lowerHex (u : UInt16) : isDigit (lowerHex u) = isDigit u := by
  rw [Bool.eq_iff_iff, isDigit_iff, isDigit_iff, toNat_lowerHex]
  split_ifs <;> omega

theorem lowerHex_of_isDigit (h : isDigit u = true) : lowerHex u = u := by
  have hbounds := isDigit_iff.mp h
  rw [← UInt16.toNat_inj, toNat_lowerHex, if_neg (by omega)]

theorem hexValue_eq (u : UInt16) : Json.hexValue u =
    if 48 ≤ u.toNat ∧ u.toNat ≤ 57 then some (u.toNat - 48)
    else if 97 ≤ u.toNat ∧ u.toNat ≤ 102 then some (u.toNat - 87)
    else if 65 ≤ u.toNat ∧ u.toNat ≤ 70 then some (u.toNat - 55)
    else none := by
  have hrange : ∀ low high : UInt16, (low ≤ u && u ≤ high) = true ↔
      low.toNat ≤ u.toNat ∧ u.toNat ≤ high.toNat := by
    intro low high
    simp [UInt16.le_iff_toNat_le]
  have hsmall := hrange 0x61 0x66
  have hcapital := hrange 0x41 0x46
  rw [Json.hexValue, digitValue]
  simp only [isDigit_iff, hsmall, hcapital]
  have h97 : (0x61 : UInt16).toNat = 97 := rfl
  have h102 : (0x66 : UInt16).toNat = 102 := rfl
  have h65 : (0x41 : UInt16).toNat = 65 := rfl
  have h70 : (0x46 : UInt16).toNat = 70 := rfl
  rw [h97, h102, h65, h70]
  split_ifs
  · rfl
  · congr 1
    omega
  · congr 1
    omega
  · rfl

theorem hexValue_lowerHex (u : UInt16) : Json.hexValue (lowerHex u) = Json.hexValue u := by
  rw [hexValue_eq, hexValue_eq, toNat_lowerHex]
  split_ifs <;> first | rfl | (congr 1; omega)

theorem readHextet_lower (group : JsString) :
    readHextet (group.map lowerHex) = readHextet group := by
  rw [readHextet, readHextet, List.length_map, List.foldlM_map]
  simp only [hexValue_lowerHex]

theorem readHextets_lower (part : JsString) :
    readHextets (part.map lowerHex) = readHextets part := by
  rw [readHextets, readHextets, splitOn_map fun u => lowerHex_eq_iff (by decide)]
  simp only [List.map_eq_nil_iff, List.mapM_map]
  congr 2
  funext group
  exact readHextet_lower group

theorem readHalves_lower (halves : List JsString) :
    readHalves (halves.map (List.map lowerHex)) = readHalves halves := by
  cases halves with
  | nil => rfl
  | cons before others =>
      cases others with
      | nil => exact readHextets_lower before
      | cons after others =>
          cases others with
          | nil =>
              simp only [List.map_cons, List.map_nil, readHalves]
              rw [readHextets_lower, readHextets_lower]
          | cons third others => rfl

end Case

section HexText

/-- The unit of a hexadecimal digit. -/
def hexUnit (d : Nat) : UInt16 := (units d.digitChar).headD 0

theorem hexUnit_facts : ∀ d < 16, units d.digitChar = [hexUnit d] ∧
    lowerHex (hexUnit d) = hexUnit d := by
  decide +kernel

theorem hexText_of_lt {n : Nat} (h : n < 16) : hexText n = [hexUnit n] := by
  rw [hexText, js, String.toList_ofList, Nat.toDigits_of_lt_base h, List.flatMap_singleton,
    (hexUnit_facts n h).1]

theorem hexText_of_le {n : Nat} (h : 16 ≤ n) :
    hexText n = hexText (n / 16) ++ [hexUnit (n % 16)] := by
  rw [hexText, hexText, js, js, String.toList_ofList, String.toList_ofList,
    Nat.toDigits_of_base_le (by decide) h, List.flatMap_append, List.flatMap_singleton,
    (hexUnit_facts _ (Nat.mod_lt n (by decide))).1]

theorem lower_hexText (n : Nat) : (hexText n).map lowerHex = hexText n := by
  induction n using Nat.strongRecOn with
  | ind n ih =>
      by_cases hn : n < 16
      · rw [hexText_of_lt hn, List.map_singleton, (hexUnit_facts n hn).2]
      · have hdigit : n % 16 < 16 := Nat.mod_lt n (by decide)
        rw [hexText_of_le (by omega), List.map_append, List.map_singleton, ih _ (by omega),
          (hexUnit_facts _ hdigit).2]

end HexText

end KyaOs
