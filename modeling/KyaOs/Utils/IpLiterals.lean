import KyaOs.Utils.IpGroups

/-!
# Address literals

`ipv6ToBytes` reads every IPv6 literal as its bytes, and little else.
-/

namespace KyaOs

open Js

section Quads

variable {before quad text : JsString} {octets hextets : List Nat} {n : Nat}

theorem mem_intercalate {u sep : UInt16} {parts : List JsString}
    (h : u ∈ [sep].intercalate parts) : u = sep ∨ ∃ part ∈ parts, u ∈ part := by
  induction parts with
  | nil => cases h
  | cons part others ih =>
      cases others with
      | nil => exact .inr ⟨part, List.mem_cons_self, by simpa using h⟩
      | cons second others =>
          rw [List.intercalate_cons_cons, List.append_assoc, List.mem_append, List.mem_append,
            List.mem_singleton] at h
          obtain hpart | hsep | hrest := h
          · exact .inr ⟨part, List.mem_cons_self, hpart⟩
          · exact .inl hsep
          · obtain hsep | ⟨other, hother, hmem⟩ := ih hrest
            · exact .inl hsep
            · exact .inr ⟨other, List.mem_cons_of_mem _ hother, hmem⟩

/-- Four numbers of one to three digits, leading zeros among them. -/
structure QuadText (quad : JsString) (octets : List Nat) : Prop where
  parts : (quad.splitOn 0x2E).length = 4
  numbers : (quad.splitOn 0x2E).mapM quadNumber = some octets
  octet : ∀ o ∈ octets, o < 256

theorem quadNumber_lower (part : JsString) : quadNumber (part.map lowerHex) = quadNumber part := by
  have hall : (part.map lowerHex).all isDigit = part.all isDigit := by
    rw [List.all_map]
    congr 1
    funext u
    exact isDigit_lowerHex u
  rw [quadNumber, quadNumber, List.length_map, hall]
  split_ifs with hdigits
  · have hsame : part.map lowerHex = part :=
      (List.map_congr_left fun u hu => lowerHex_of_isDigit
        (List.all_eq_true.mp hdigits.2.2 u hu)).trans (List.map_id part)
    rw [hsame]
  · rfl

theorem quadNumber_some {part : JsString} (h : quadNumber part = some n) :
    part.all isDigit = true ∧ n = Js.decimalValue part := by
  rw [quadNumber] at h
  split_ifs at h with hdigits
  exact ⟨hdigits.2.2, (Option.some.inj h).symm⟩

theorem quadNumber_toString : ∀ n < 256, quadNumber (js (toString n)) = some n := by
  decide +kernel

theorem mapM_quadNumber_toString {octets : List Nat} (h : ∀ o ∈ octets, o < 256) :
    (octets.map fun o => js (toString o)).mapM quadNumber = some octets := by
  induction octets with
  | nil => rfl
  | cons o rest ih =>
      obtain ⟨ho, hrest⟩ := List.forall_mem_cons.mp h
      rw [List.map_cons, List.mapM_cons, quadNumber_toString o ho, ih hrest]
      rfl

theorem splitOn_dottedQuad (hne : octets ≠ []) :
    (dottedQuad octets).splitOn 0x2E = octets.map fun o => js (toString o) := by
  refine List.splitOn_intercalate _ ?_ (by simpa using hne)
  intro part hpart
  obtain ⟨o, -, rfl⟩ := List.mem_map.mp hpart
  exact notMem_toString (by decide) o

theorem CanonicalQuad.ne_nil (h : CanonicalQuad quad octets) : octets ≠ [] := by
  rintro rfl
  exact absurd h.length (by decide)

theorem CanonicalQuad.quadText (h : CanonicalQuad quad octets) : QuadText quad octets where
  parts := by rw [h.text, splitOn_dottedQuad h.ne_nil, List.length_map, h.length]
  numbers := by rw [h.text, splitOn_dottedQuad h.ne_nil, mapM_quadNumber_toString h.octet]
  octet := h.octet

theorem mapM_quadNumber_all {parts : List JsString} (h : parts.mapM quadNumber = some octets) :
    (∀ part ∈ parts, part.all isDigit = true) ∧ octets = parts.map Js.decimalValue := by
  induction parts generalizing octets with
  | nil =>
      obtain rfl := Option.some.inj h
      exact ⟨by simp, rfl⟩
  | cons part others ih =>
      obtain ⟨n, ns, hpart, hothers, rfl⟩ := mapM_cons_eq_some h
      obtain ⟨hdigits, rfl⟩ := quadNumber_some hpart
      obtain ⟨hall, rfl⟩ := ih hothers
      exact ⟨List.forall_mem_cons.mpr ⟨hdigits, hall⟩, rfl⟩

/-- A quad is canonical when its numbers are printed without leading zeros. -/
theorem QuadText.canonical (h : QuadText quad octets)
    (hdecimal : ∀ part ∈ quad.splitOn 0x2E, IsDecimal part) : CanonicalQuad quad octets := by
  obtain ⟨-, hvalues⟩ := mapM_quadNumber_all h.numbers
  refine ⟨?_, h.octet, ?_⟩
  · rw [hvalues, List.length_map, h.parts]
  · have hprinted : octets.map (fun o => js (toString o)) = quad.splitOn 0x2E := by
      rw [hvalues, List.map_map]
      exact (List.map_congr_left fun part hpart =>
        toString_decimalValue (hdecimal part hpart)).trans
        (List.map_id _)
    rw [dottedQuad, hprinted, List.intercalate_splitOn]

theorem CanonicalQuad.isDecimal (h : CanonicalQuad quad octets) :
    ∀ part ∈ quad.splitOn 0x2E, IsDecimal part := by
  rw [h.text, splitOn_dottedQuad h.ne_nil]
  intro part hpart
  obtain ⟨o, -, rfl⟩ := List.mem_map.mp hpart
  exact isDecimal_toString o

/-- A quad is of digits and dots. -/
theorem QuadText.notMem (h : QuadText quad octets) {u : UInt16} (hu : isDigit u = false)
    (hdot : u ≠ 0x2E) : u ∉ quad := by
  intro hmem
  have hjoined : u ∈ [0x2E].intercalate (quad.splitOn 0x2E) := by
    rwa [List.intercalate_splitOn]
  obtain hsep | ⟨part, hpart, hmem⟩ := mem_intercalate hjoined
  · exact hdot hsep
  · rw [List.all_eq_true.mp ((mapM_quadNumber_all h.numbers).1 part hpart) u hmem] at hu
    cases hu

theorem exists_last_colon (h : 0x3A ∈ text) :
    ∃ before last, text = before ++ 0x3A :: last ∧ 0x3A ∉ last := by
  obtain ⟨last, before, hreversed, hlast⟩ := List.eq_append_cons_of_mem (List.mem_reverse.mpr h)
  refine ⟨before.reverse, last.reverse, ?_, by simpa using hlast⟩
  rw [← List.reverse_reverse text, hreversed]
  simp

/-- The quad behind the last colon, if there is one. -/
theorem trailingQuad_eq (h : 0x3A ∉ quad) : trailingQuad (before ++ 0x3A :: quad) =
    if (quad.splitOn 0x2E).length = 4 then
      ((quad.splitOn 0x2E).mapM quadNumber).map fun o => (before, o)
    else none := by
  have hlast : (before ++ 0x3A :: quad).reverse.takeWhile (· ≠ 0x3A) = quad.reverse := by
    rw [List.reverse_append, List.reverse_cons, List.append_assoc, List.takeWhile_append_of_pos]
    · simp
    · intro u hu
      simpa using fun heq : u = 0x3A => h (heq ▸ List.mem_reverse.mp hu)
  have hbefore : (before ++ 0x3A :: quad).take
      ((before ++ 0x3A :: quad).length - quad.length - 1) = before := by
    rw [List.length_append, List.length_cons,
      show before.length + (quad.length + 1) - quad.length - 1 = before.length by omega,
      List.take_left]
  rw [trailingQuad, if_pos (by simp), hlast, List.reverse_reverse]
  simp only [hbefore]

theorem trailingQuad_lower (text : JsString) : trailingQuad (text.map lowerHex) =
    (trailingQuad text).map fun (before, o) => (before.map lowerHex, o) := by
  have hcolon : ∀ u, lowerHex u = 0x3A ↔ u = 0x3A := fun u => lowerHex_eq_iff (by decide)
  by_cases h : 0x3A ∈ text
  · obtain ⟨before, quad, rfl, hquad⟩ := exists_last_colon h
    have hquad' : 0x3A ∉ quad.map lowerHex := by
      intro hmem
      obtain ⟨u, hu, heq⟩ := List.mem_map.mp hmem
      exact hquad ((hcolon u).mp heq ▸ hu)
    have hnumbers : quadNumber ∘ List.map lowerHex = quadNumber := funext quadNumber_lower
    rw [List.map_append, List.map_cons, (hcolon 0x3A).mpr rfl, trailingQuad_eq hquad',
      trailingQuad_eq hquad, splitOn_map fun u => lowerHex_eq_iff (by decide), List.length_map,
      List.mapM_map, hnumbers]
    split_ifs
    · rw [Option.map_map]
      rfl
    · rfl
  · have h' : 0x3A ∉ text.map lowerHex := by
      intro hmem
      obtain ⟨u, hu, heq⟩ := List.mem_map.mp hmem
      exact h ((hcolon u).mp heq ▸ hu)
    rw [trailingQuad, trailingQuad, if_neg h, if_neg h']
    rfl

end Quads

section Reading

variable {before quad text address : JsString} {octets hextets bytes : List Nat}

/-- `ipv6ToBytes` of a literal without a zone. -/
def readLiteral (text : JsString) : Option (List Nat) := do
  let text ← foldQuad text
  let hextets ← readHalves (splitDoubleColon text)
  if hextets.length ≠ 8 then none else some (hextetBytes hextets)

/-- An IPv6 literal whose quad may have leading zeros. -/
inductive LenientLiteral : JsString → List Nat → Prop where
  | plain {text : JsString} {hextets : List Nat} (h : PlainLiteral text hextets) :
      LenientLiteral text hextets
  | mixed {before quad : JsString} {octets hextets : List Nat} (hquad : QuadText quad octets)
      (h : PlainLiteral (before ++ 0x3A :: quadGroups octets) hextets) :
      LenientLiteral (before ++ 0x3A :: quad) hextets

theorem PlainLiteral.notMem (h : PlainLiteral text hextets) {u : UInt16}
    (hu : Json.hexValue u = none) (hcolon : u ≠ 0x3A) : u ∉ text := by
  have hgroups : ∀ {groups : List JsString} {hextets : List Nat},
      groups.mapM readHextet = some hextets → u ∉ [0x3A].intercalate groups := by
    intro groups hextets hread hmem
    obtain hsep | ⟨group, hgroup, hmem⟩ := mem_intercalate hmem
    · exact hcolon hsep
    · obtain ⟨n, hn⟩ := mem_readHextet hread hgroup
      exact notMem_of_readHextet hn hu hmem
  cases h with
  | whole hread hlength => exact hgroups hread
  | compressed hleft hright hlength => simp [hgroups hleft, hgroups hright, hcolon]

theorem trailingQuad_plain (h : PlainLiteral text hextets) : trailingQuad text = none := by
  have hdot := h.notMem hexValue_colon.2.1 (by decide)
  by_cases hcolon : 0x3A ∈ text
  · obtain ⟨before, quad, rfl, hquad⟩ := exists_last_colon hcolon
    have hsingle : quad.splitOn 0x2E = [quad] :=
      List.splitOn_eq_singleton fun hmem => hdot (by simp [hmem])
    rw [trailingQuad_eq hquad, hsingle]
    rfl
  · rw [trailingQuad, if_neg hcolon]

theorem foldQuad_mixed (h : QuadText quad octets) :
    foldQuad (before ++ 0x3A :: quad) = some (before ++ 0x3A :: quadGroups octets) := by
  have hcolon : js ":" = [0x3A] := by decide
  have hsmall : octets.any (255 < ·) = false := by
    rw [List.any_eq_false]
    intro o ho
    have hlt := h.octet o ho
    simp
    omega
  rw [foldQuad, trailingQuad_eq (h.notMem (by decide) (by decide)), if_pos h.parts, h.numbers]
  simp [hsmall, hcolon, quadGroups]

/-- A text is folded at a quad, or left as it is. -/
theorem foldQuad_cases {folded : JsString} (h : foldQuad text = some folded) :
    folded = text ∨ ∃ before quad octets, text = before ++ 0x3A :: quad ∧ QuadText quad octets ∧
      folded = before ++ 0x3A :: quadGroups octets := by
  by_cases hcolon : 0x3A ∈ text
  · obtain ⟨before, quad, rfl, hquad⟩ := exists_last_colon hcolon
    have hcases := h
    rw [foldQuad, trailingQuad_eq hquad] at hcases
    by_cases hparts : (quad.splitOn 0x2E).length = 4
    · rw [if_pos hparts] at hcases
      cases hnumbers : (quad.splitOn 0x2E).mapM quadNumber with
      | none =>
          rw [hnumbers] at hcases
          exact .inl (Option.some.inj hcases).symm
      | some octets =>
          rw [hnumbers] at hcases
          simp only [Option.map_some] at hcases
          split_ifs at hcases with hlarge
          have hquadText : QuadText quad octets := by
            refine ⟨hparts, hnumbers, fun o ho => ?_⟩
            have hsmall := List.any_eq_false.mp (Bool.eq_false_iff.mpr hlarge) o ho
            simp only [decide_eq_true_eq] at hsmall
            omega
          rw [foldQuad_mixed hquadText] at h
          exact .inr ⟨before, quad, octets, rfl, hquadText, (Option.some.inj h).symm⟩
    · rw [if_neg hparts] at hcases
      exact .inl (Option.some.inj hcases).symm
  · rw [foldQuad, trailingQuad, if_neg hcolon] at h
    exact .inl (Option.some.inj h).symm

/-- What is read are the literals, leading zeros in their quads or not. -/
theorem readLiteral_iff : readLiteral text = some bytes ↔
    ∃ hextets, LenientLiteral text hextets ∧ bytes = hextetBytes hextets := by
  have hplain : ∀ {text : JsString}, (do
      let hextets ← readHalves (splitDoubleColon text)
      if hextets.length ≠ 8 then none else some (hextetBytes hextets)) = some bytes ↔
        ∃ hextets, PlainLiteral text hextets ∧ bytes = hextetBytes hextets := by
    intro text
    simp only [← readHalves_iff, Option.bind_eq_bind, Option.bind_eq_some_iff,
      Option.ite_none_left_eq_some, Option.some.injEq, ne_eq, not_not, and_assoc]
    exact exists_congr fun hextets => and_congr_right fun _ => and_congr_right fun _ => eq_comm
  constructor
  · intro h
    obtain ⟨folded, hfolded, hread⟩ := Option.bind_eq_some_iff.mp h
    obtain ⟨hextets, hliteral, hbytes⟩ := hplain.mp hread
    obtain rfl | ⟨before, quad, octets, rfl, hquad, rfl⟩ := foldQuad_cases hfolded
    · exact ⟨hextets, .plain hliteral, hbytes⟩
    · exact ⟨hextets, .mixed hquad hliteral, hbytes⟩
  · rintro ⟨hextets, hliteral, hbytes⟩
    cases hliteral with
    | plain h =>
        rw [readLiteral, foldQuad, trailingQuad_plain h]
        exact hplain.mpr ⟨hextets, h, hbytes⟩
    | mixed hquad h =>
        rw [readLiteral, foldQuad_mixed hquad]
        exact hplain.mpr ⟨hextets, h, hbytes⟩

/-- Letters of either case are read alike. -/
theorem readLiteral_lower (text : JsString) :
    readLiteral (text.map lowerHex) = readLiteral text := by
  have hcolon : ∀ u, lowerHex u = 0x3A ↔ u = 0x3A := fun u => lowerHex_eq_iff (by decide)
  have hjoin : js ":" = [0x3A] := by decide
  have hfold : foldQuad (text.map lowerHex) = (foldQuad text).map (List.map lowerHex) := by
    rw [foldQuad, foldQuad, trailingQuad_lower]
    cases trailingQuad text with
    | none => rfl
    | some found =>
        obtain ⟨before, octets⟩ := found
        simp only [Option.map_some]
        split_ifs
        · rfl
        · simp [lower_hexText, hjoin, (hcolon 0x3A).mpr rfl]
  rw [readLiteral, readLiteral, hfold]
  cases foldQuad text with
  | none => rfl
  | some folded =>
      simp only [Option.map_some, Option.bind_eq_bind, Option.bind_some]
      rw [splitDoubleColon_map hcolon, readHalves_lower]

theorem ipv6ToBytes_eq (address : JsString) :
    ipv6ToBytes address = readLiteral (address.takeWhile (· ≠ 0x25)) := by
  have hzone : (address.map lowerHex).takeWhile (· ≠ 0x25) =
      (address.takeWhile (· ≠ 0x25)).map lowerHex := by
    rw [List.takeWhile_map]
    congr 2
    funext u
    simpa using lowerHex_eq_iff (u := u) (c := 0x25) (by decide)
  rw [← readLiteral_lower, ← hzone]
  rfl

/-- A quad at the end of a literal has a number with a leading zero. -/
def LenientQuad (literal : JsString) : Prop :=
  ∃ before quad octets, literal = before ++ 0x3A :: quad ∧ QuadText quad octets ∧
    ∃ part ∈ quad.splitOn 0x2E, ¬ IsDecimal part

/-- A percent sign with no zone behind it. -/
def EmptyZone (address : JsString) : Prop :=
  ∃ literal, 0x25 ∉ literal ∧ address = literal ++ [0x25]

/-- What is read although it is no literal. -/
def LenientIpv6 (address : JsString) : Prop :=
  LenientQuad (address.takeWhile (· ≠ 0x25)) ∨ EmptyZone address

theorem Ipv6Literal.lenient (h : Ipv6Literal text hextets) : LenientLiteral text hextets := by
  cases h with
  | plain h => exact .plain h
  | mixed hquad h => exact .mixed hquad.quadText h

theorem LenientLiteral.strict (h : LenientLiteral text hextets) (hquad : ¬ LenientQuad text) :
    Ipv6Literal text hextets := by
  cases h with
  | plain h => exact .plain h
  | mixed hquadText h =>
      refine .mixed (hquadText.canonical fun part hpart => ?_) h
      by_contra hdecimal
      exact hquad ⟨_, _, _, rfl, hquadText, part, hpart, hdecimal⟩

theorem Ipv6Literal.not_lenientQuad (h : Ipv6Literal text hextets) : ¬ LenientQuad text := by
  rintro ⟨before, quad, octets, rfl, hquad, part, hpart, hdecimal⟩
  have hnone := hquad.notMem (u := 0x3A) (by decide) (by decide)
  generalize hwhole : before ++ 0x3A :: quad = whole at h
  cases h with
  | plain h =>
      have hfound := trailingQuad_plain h
      rw [← hwhole, trailingQuad_eq hnone, if_pos hquad.parts, hquad.numbers] at hfound
      cases hfound
  | mixed hcanonical h =>
      obtain ⟨-, rfl⟩ := eq_of_join_last_eq hnone
        (hcanonical.quadText.notMem (by decide) (by decide)) hwhole
      exact hdecimal (hcanonical.isDecimal part hpart)

theorem LenientLiteral.notMem_percent (h : LenientLiteral text hextets) : 0x25 ∉ text := by
  cases h with
  | plain h => exact h.notMem hexValue_colon.2.2 (by decide)
  | mixed hquad h =>
      have hbefore := h.notMem hexValue_colon.2.2 (by decide)
      have hquadNone := hquad.notMem (u := 0x25) (by decide) (by decide)
      simp_all

theorem takeWhile_append {literal rest : JsString} (h : 0x25 ∉ literal)
    (hrest : rest.takeWhile (· ≠ 0x25) = []) :
    (literal ++ rest).takeWhile (· ≠ 0x25) = literal := by
  have hall : ∀ u ∈ literal, decide (u ≠ 0x25) = true := by
    intro u hu
    exact decide_eq_true fun heq => h (heq ▸ hu)
  rw [List.takeWhile_append_of_pos hall, hrest, List.append_nil]

theorem takeWhile_literal {literal : JsString} (h : 0x25 ∉ literal) :
    literal.takeWhile (· ≠ 0x25) = literal := by
  simpa using @takeWhile_append literal [] h rfl

theorem takeWhile_zone {literal : JsString} (h : 0x25 ∉ literal) (zone : JsString) :
    (literal ++ 0x25 :: zone).takeWhile (· ≠ 0x25) = literal :=
  takeWhile_append h (by simp)

/-- Every literal is read as its bytes. -/
theorem WellFormedIpv6.read (h : WellFormedIpv6 address bytes) :
    ipv6ToBytes address = some bytes ∧ ¬ LenientIpv6 address := by
  obtain ⟨literal, hextets, hliteral, rfl, haddress⟩ := h
  have hpercent := hliteral.lenient.notMem_percent
  have hread := readLiteral_iff.mpr ⟨hextets, hliteral.lenient, rfl⟩
  obtain rfl | ⟨zone, hzone, rfl⟩ := haddress
  · have htake := takeWhile_literal hpercent
    refine ⟨by rw [ipv6ToBytes_eq, htake, hread], ?_⟩
    rintro (hquad | ⟨before, -, rfl⟩)
    · rw [htake] at hquad
      exact hliteral.not_lenientQuad hquad
    · exact hpercent (by simp)
  · have htake := takeWhile_zone hpercent zone
    refine ⟨by rw [ipv6ToBytes_eq, htake, hread], ?_⟩
    rintro (hquad | ⟨before, hbefore, heq⟩)
    · rw [htake] at hquad
      exact hliteral.not_lenientQuad hquad
    · exact hzone (eq_of_join_eq hpercent hbefore heq).2

/-- What is read without leniency is a literal. -/
theorem wellFormedIpv6_of_read (h : ipv6ToBytes address = some bytes)
    (hlenient : ¬ LenientIpv6 address) : WellFormedIpv6 address bytes := by
  rw [LenientIpv6, not_or] at hlenient
  rw [ipv6ToBytes_eq] at h
  obtain ⟨hextets, hliteral, hbytes⟩ := readLiteral_iff.mp h
  refine ⟨_, hextets, hliteral.strict hlenient.1, hbytes, ?_⟩
  by_cases hpercent : 0x25 ∈ address
  · obtain ⟨literal, zone, rfl, hnone⟩ := List.eq_append_cons_of_mem hpercent
    rw [takeWhile_zone hnone zone]
    refine .inr ⟨zone, ?_, rfl⟩
    rintro rfl
    exact hlenient.2 ⟨literal, hnone, rfl⟩
  · exact .inl (takeWhile_literal hpercent).symm

end Reading

end KyaOs
