import KyaOs.Middleware.Grants
import KyaOs.Audit.Merkle
import Mathlib.Data.Finset.Dedup

/-!
# Rows of different tuples

A grant is for an agent, a session or none, and a set of scopes. The memory store keeps a
row of every tuple that was bound exactly when no two of them have texts that encode to
the same bytes.
-/

namespace KyaOs.Middleware

open Js Untyped JsonValue Audit Providers Concurrency

/-- What a grant is for. -/
@[ext] structure BoundTuple where
  agentDid : JsString
  sessionId : Option JsString
  scopes : Finset JsString
  deriving DecidableEq

/-- A binding whose credential carries its agent DID and its scopes as strings. -/
structure StringBinding extends GrantBinding where
  agentDid : JsString
  delegatedScopes : List JsString
  agentDid_eq : (Untyped.member? (some vc) (js "credentialSubject")).member? (js "id") =
    some (.string agentDid)
  delegatedScopes_eq : (Untrusted.getDelegationScopes (some vc)).toOption.getD [] =
    delegatedScopes.map .string

/-- Strings in the order of `sort()`. -/
def sortTexts (texts : List JsString) : List JsString :=
  (Json.byName (texts.map fun text => (text, ()))).map Prod.fst

namespace StringBinding

def tuple (call : StringBinding) : BoundTuple :=
  { agentDid := call.agentDid
    sessionId := call.sessionId
    scopes := (call.scopeId :: call.delegatedScopes).toFinset }

/-- Whether the call mints a grant. -/
def Binds (mode : HolderBindingMode) (call : StringBinding) : Prop :=
  call.agentDid ≠ [] ∧ ¬ (mode = .off ∧ call.sessionId = none)

instance (mode : HolderBindingMode) (call : StringBinding) : Decidable (call.Binds mode) :=
  inferInstanceAs (Decidable (_ ∧ _))

/-- The agent, the session and the sorted scopes, as a grant's id joins them. -/
def text (call : StringBinding) : JsString :=
  call.agentDid ++ js "|" ++ call.sessionId.getD [] ++ js "|" ++
    (js ",").intercalate (sortTexts (call.scopeId :: call.delegatedScopes).dedup)

end StringBinding

/-- The conversation of a binding in one process: the hasher computes `hash`, the clock
tells some time and the store takes every grant. -/
def Served (hash : Bytes → Digest) (exchange : Exchange Gates) : Prop :=
  match exchange with
  | ⟨.hash bytes, answer⟩ => answer = .ok (hash bytes)
  | ⟨.now, answer⟩ => ∃ time : ℚ, answer = .ok time
  | ⟨.bindGrant _, answer⟩ => answer = .ok ()
  | _ => True

/-- The store after a conversation. -/
def storeAfter (store : MemoryGrantStore) : List (Exchange Gates) → MemoryGrantStore
  | [] => store
  | ⟨.bindGrant grant, _⟩ :: rest => storeAfter (store.bind grant) rest
  | _ :: rest => storeAfter store rest

section Keys

variable {config : GrantConfig}

theorem sortTexts_eq_of_perm {texts texts' : List JsString} (hnodup : texts.Nodup)
    (h : texts.Perm texts') : sortTexts texts = sortTexts texts' := by
  rw [sortTexts, sortTexts]
  refine congrArg (List.map Prod.fst) (Json.byName_eq_of_perm ?_ (h.map _))
  simpa [Function.comp_def] using hnodup

theorem mapM_toText_strings (texts : List JsString) :
    (texts.map JsonValue.string).mapM
        (fun scope => do return (← scope.toText config.numbers, scope)) =
      (.ok (texts.map fun text => (text, JsonValue.string text)) :
        Except Error (List (JsString × JsonValue JsNumber))) := by
  induction texts with
  | nil => rfl
  | cons text rest ih =>
      rw [List.map_cons, List.mapM_cons, ih]
      rfl

theorem sortScopes_strings (texts : List JsString) :
    sortScopes config (texts.map .string) = .ok ((sortTexts texts).map .string) := by
  let value : JsString × Unit → JsonValue JsNumber := fun member => .string member.1
  have hsorted : (Json.byName (texts.map fun text => (text, ()))).map
      (fun member => (member.1, value member)) =
        Json.byName (texts.map fun text => (text, JsonValue.string text)) := by
    rw [Json.map_byName, List.map_map]
    rfl
  rw [sortScopes, mapM_toText_strings, sortTexts, List.map_map]
  refine congrArg Except.ok ?_
  rw [← hsorted, List.map_map]
  rfl

theorem joinTexts_strings (texts : List JsString) :
    joinTexts config.numbers (texts.map .string) = .ok texts := by
  induction texts with
  | nil => rfl
  | cons text rest ih =>
      simp [joinTexts, toText, ih, bind, Except.bind, pure, Except.pure]

/-- The key of a grant is the text of its tuple. -/
theorem grantKey_eq (call : StringBinding) :
    grantKey config (.string call.agentDid) call.sessionId
        (distinct (.string call.scopeId :: call.delegatedScopes.map .string)) =
      .ok call.text := by
  obtain ⟨kept, hkept, hnodup, hmem⟩ :=
    distinct_strings (call.scopeId :: call.delegatedScopes)
  have hperm : kept.Perm (call.scopeId :: call.delegatedScopes).dedup :=
    (List.perm_ext_iff_of_nodup hnodup (List.nodup_dedup _)).mpr (by simp [hmem])
  rw [← List.map_cons (f := JsonValue.string), hkept, grantKey, sortScopes_strings]
  simp only [toText, bind, Except.bind, joinTexts_strings]
  rw [sortTexts_eq_of_perm hnodup hperm]
  rfl

end Keys

section Binding

variable {config : GrantConfig} {hash : Bytes → Digest} {call : StringBinding}
  {log : List (Exchange Gates)} {result : Except Error Unit}

/-- The row a binding writes. -/
def StringBinding.row (hash : Bytes → Digest) (call : StringBinding) (issuedAt : ℚ) : Grant :=
  call.grant (js "grant_" ++ digestHex (hash (encodeUtf8 call.text))) (.string call.agentDid)
    (((Untyped.member? (some call.vc) (js "credentialSubject")).member? (js "delegation")).member?
      (js "controller"))
    (distinct (.string call.scopeId :: call.delegatedScopes.map .string)) issuedAt

/-- A hash is answered by the hasher. -/
theorem runs_hash_bind {α : Type} {bytes : Bytes} {next : Digest → GateM α}
    {result : Except Error α} (h : (Async.ask (I := Gates) (.hash bytes) >>= next).Runs log result)
    (hserved : ∀ exchange ∈ log, Served hash exchange) :
    ∃ rest, log = ⟨.hash bytes, .ok (hash bytes)⟩ :: rest ∧
      (next (hash bytes)).Runs rest result := by
  obtain ⟨answer, rest, rfl, hrest⟩ := Async.runs_ask_bind.mp h
  obtain rfl : answer = .ok (hash bytes) := hserved _ List.mem_cons_self
  exact ⟨rest, rfl, hrest⟩

/-- What a binding that mints a grant does between its guards and its end. -/
def StringBinding.mint (config : GrantConfig) (call : StringBinding) : GateM Unit := do
  let scopes := distinct (.string call.scopeId :: call.delegatedScopes.map .string)
  let userDid := ((Untyped.member? (some call.vc) (js "credentialSubject")).member?
    (js "delegation")).member? (js "controller")
  let id ← grantId config (.string call.agentDid) call.sessionId scopes
  let issuedAt ← Async.ask (I := Gates) .now
  Async.ask (I := Gates)
    (.bindGrant (call.grant id (.string call.agentDid) userDid scopes issuedAt))

theorem bindGrantOnSuccess_eq (call : StringBinding) :
    bindGrantOnSuccess config call.toGrantBinding =
      tryCatch (if call.Binds config.holderBindingMode then call.mint config else return ())
        fun _ => return () := by
  simp only [bindGrantOnSuccess, call.agentDid_eq, call.delegatedScopes_eq]
  congr 1
  by_cases hagent : call.agentDid = []
  · simp [StringBinding.Binds, hagent, Untyped.truthy]
  · by_cases hunresolvable : config.holderBindingMode = .off ∧ call.sessionId = none
    · simp [StringBinding.Binds, hagent, Untyped.truthy, hunresolvable]
    · simp only [StringBinding.Binds, hagent, Untyped.truthy, hunresolvable, StringBinding.mint,
        ne_eq, not_false_eq_true, and_self, if_true, decide_true, Bool.not_true,
        Bool.false_eq_true, if_false]
      rw [call.delegatedScopes_eq]

/-- A served binding that mints a grant writes its row. -/
theorem StringBinding.runs_mint (h : (call.mint config).Runs log result)
    (hserved : ∀ exchange ∈ log, Served hash exchange) :
    result = .ok () ∧ ∃ issuedAt : ℚ, ∀ store, storeAfter store log =
      store.bind (call.row hash issuedAt) := by
  rw [mint, grantId, grantKey_eq] at h
  have hid : ∀ {log answer}, (do
      let key ← Async.ofExcept (.ok call.text)
      let digest ← Async.ask (I := Gates) (.hash (encodeUtf8 key))
      return js "grant_" ++ digestHex digest : GateM JsString).Runs log answer →
        (∀ exchange ∈ log, Served hash exchange) →
          log = [⟨.hash (encodeUtf8 call.text), .ok (hash (encodeUtf8 call.text))⟩] ∧
            answer = .ok (js "grant_" ++ digestHex (hash (encodeUtf8 call.text))) := by
    intro log answer hruns hserved
    obtain ⟨rest, rfl, hrest⟩ := runs_hash_bind (Async.runs_check.mp hruns) hserved
    obtain ⟨rfl, hanswer⟩ := Async.runs_pure.mp hrest
    exact ⟨rfl, hanswer⟩
  obtain ⟨hashing, rest, id, rfl, hruns, hrest⟩ | ⟨e, hthrown, -⟩ := Async.runs_bind.mp h
  · obtain ⟨rfl, hanswer⟩ := hid hruns fun exchange hmem =>
      hserved exchange (List.mem_append_left _ hmem)
    obtain rfl := Except.ok.inj hanswer
    obtain ⟨time, binding, rfl, hbinding⟩ := Async.runs_ask_bind.mp hrest
    obtain ⟨issuedAt, rfl⟩ : ∃ issuedAt : ℚ, time = .ok issuedAt :=
      hserved ⟨.now, time⟩ (List.mem_append_right _ List.mem_cons_self)
    obtain rfl := Async.runs_ask.mp hbinding
    obtain rfl : result = .ok () := hserved ⟨.bindGrant _, result⟩
      (List.mem_append_right _ (List.mem_cons_of_mem _ (List.mem_singleton_self _)))
    exact ⟨rfl, issuedAt, fun store => rfl⟩
  · cases (hid hthrown hserved).2

/-- A served binding writes the row of its tuple, or nothing. -/
theorem runs_bindGrantOnSuccess
    (h : (bindGrantOnSuccess config call.toGrantBinding).Runs log result)
    (hserved : ∀ exchange ∈ log, Served hash exchange) :
    if call.Binds config.holderBindingMode then
      ∃ issuedAt : ℚ, ∀ store, storeAfter store log = store.bind (call.row hash issuedAt)
    else ∀ store, storeAfter store log = store := by
  rw [bindGrantOnSuccess_eq] at h
  split
  · rename_i hbinds
    rw [if_pos hbinds] at h
    obtain ⟨_, hruns, -⟩ | ⟨first, rest, e, rfl, hthrown, -⟩ := Async.runs_tryCatch.mp h
    · exact (StringBinding.runs_mint hruns hserved).2
    · cases (StringBinding.runs_mint hthrown fun exchange hmem =>
        hserved exchange (List.mem_append_left _ hmem)).1
  · rename_i hbinds
    rw [if_neg hbinds] at h
    obtain ⟨_, hruns, -⟩ | ⟨first, rest, e, rfl, hthrown, -⟩ := Async.runs_tryCatch.mp h
    · obtain ⟨rfl, -⟩ := Async.runs_pure.mp hruns
      exact fun store => rfl
    · cases (Async.runs_pure.mp hthrown).2

end Binding

/-- The grant is for the tuple. -/
structure IsFor (tuple : BoundTuple) (grant : Grant) : Prop where
  agentDid : grant.agentDid = .string tuple.agentDid
  sessionId : grant.sessionId = tuple.sessionId
  scopes : ∀ scope, scope ∈ grant.scopes ↔ ∃ text ∈ tuple.scopes, scope = .string text

/-- The store has an active row of the tuple, which a lookup for a scope of it answers
until it expires. -/
def Keeps (store : MemoryGrantStore) (tuple : BoundTuple) : Prop :=
  ∃ grant ∈ store.grants.map Prod.snd, IsFor tuple grant ∧ grant.status = .active ∧
    ∀ now, grant.expired now = false → ∀ scope ∈ tuple.scopes,
      grant ∈ store.getByAgent now tuple.agentDid [scope] ∧
        ∀ sessionId, tuple.sessionId = some sessionId →
          grant ∈ store.getBySession now sessionId [scope]

/-- A binding and its conversation. -/
abbrev Bound := StringBinding × List (Exchange Gates)

/-- The bindings were made, and served, in one process. -/
def Made (config : GrantConfig) (hash : Bytes → Digest) (bound : Bound) : Prop :=
  ∃ result, (bindGrantOnSuccess config bound.1.toGrantBinding).Runs bound.2 result ∧
    ∀ exchange ∈ bound.2, Served hash exchange

section Sequences

variable {config : GrantConfig} {hash : Bytes → Digest} {store : MemoryGrantStore}

def StringBinding.id (hash : Bytes → Digest) (call : StringBinding) : JsString :=
  js "grant_" ++ digestHex (hash (encodeUtf8 call.text))

theorem isFor_row (call : StringBinding) (issuedAt : ℚ) :
    IsFor call.tuple (call.row hash issuedAt) where
  agentDid := rfl
  sessionId := rfl
  scopes scope := by
    obtain ⟨kept, hkept, -, hmem⟩ := distinct_strings (call.scopeId :: call.delegatedScopes)
    rw [List.map_cons] at hkept
    simp only [StringBinding.row, GrantBinding.grant, hkept, List.mem_map, StringBinding.tuple,
      List.mem_toFinset, ← hmem]
    exact exists_congr fun text => and_congr_right fun _ => eq_comm

/-- The text of a binding is that of its tuple. -/
theorem text_of_tuple {call call' : StringBinding} (h : call.tuple = call'.tuple) :
    call.text = call'.text := by
  have hagent : call.agentDid = call'.agentDid := congrArg BoundTuple.agentDid h
  have hsession : call.sessionId = call'.sessionId := congrArg BoundTuple.sessionId h
  have hscopes := List.toFinset_eq_iff_perm_dedup.mp (congrArg BoundTuple.scopes h)
  rw [StringBinding.text, StringBinding.text, hagent, hsession,
    sortTexts_eq_of_perm (List.nodup_dedup _) hscopes]

/-- Labelled digests are told apart by what follows the label. -/
theorem digestHex_injective {digest digest' : Digest}
    (h : startsWith digest (js "sha256:") = true) (h' : startsWith digest' (js "sha256:") = true)
    (hhex : digestHex digest = digestHex digest') : digest = digest' := by
  obtain ⟨rest, rfl⟩ := startsWith_iff.mp h
  obtain ⟨rest', rfl⟩ := startsWith_iff.mp h'
  have hlength : (js "sha256:").length = 7 := by decide
  simp only [digestHex, startsWith_append, if_true, List.drop_append, hlength, Nat.sub_self,
    List.drop_zero] at hhex
  rw [List.drop_of_length_le hlength.le] at hhex
  rw [List.append_cancel_left hhex]

theorem storeAfter_append (first rest : List (Exchange Gates)) :
    storeAfter store (first ++ rest) = storeAfter (storeAfter store first) rest := by
  induction first generalizing store with
  | nil => rfl
  | cons exchange first ih =>
      obtain ⟨request, answer⟩ := exchange
      cases request with
      | bindGrant grant => exact ih
      | _ => exact ih

/-- The rows of a store are those of the bindings, one under each of their ids. -/
structure RowsOf (mode : HolderBindingMode) (hash : Bytes → Digest) (calls : List StringBinding)
    (store : MemoryGrantStore) : Prop where
  keyed : store.Keyed
  minted : ∀ grant ∈ store.grants.map Prod.snd,
    ∃ call ∈ calls, call.Binds mode ∧ ∃ issuedAt, grant = call.row hash issuedAt
  kept : ∀ call ∈ calls, call.Binds mode → ∃ grant, store.getById (call.id hash) = some grant

theorem RowsOf.binding {mode : HolderBindingMode} {calls : List StringBinding}
    (h : RowsOf mode hash calls store) {call : StringBinding} (hbinds : call.Binds mode)
    (issuedAt : ℚ) : RowsOf mode hash (calls ++ [call]) (store.bind (call.row hash issuedAt)) where
  keyed := MemoryGrantStore.keyed_bind h.keyed
  minted grant hgrant := by
    obtain ⟨row, hrow, rfl⟩ := List.mem_map.mp hgrant
    cases mem_assignMember hrow with
    | inl hassigned => exact ⟨call, by simp, hbinds, issuedAt, by rw [hassigned]⟩
    | inr hold =>
        obtain ⟨earlier, hearlier, hminted⟩ := h.minted row.2 (List.mem_map_of_mem hold)
        exact ⟨earlier, List.mem_append_left _ hearlier, hminted⟩
  kept other hother hotherBinds := by
    rw [MemoryGrantStore.getById_bind]
    split
    · exact ⟨_, rfl⟩
    · rename_i hdiffers
      cases List.mem_append.mp hother with
      | inl hearlier => exact h.kept other hearlier hotherBinds
      | inr hlast =>
          obtain rfl := List.mem_singleton.mp hlast
          exact absurd rfl hdiffers

theorem RowsOf.skipping {mode : HolderBindingMode} {calls : List StringBinding}
    (h : RowsOf mode hash calls store) {call : StringBinding} (hskips : ¬ call.Binds mode) :
    RowsOf mode hash (calls ++ [call]) store where
  keyed := h.keyed
  minted grant hgrant := by
    obtain ⟨earlier, hearlier, hminted⟩ := h.minted grant hgrant
    exact ⟨earlier, List.mem_append_left _ hearlier, hminted⟩
  kept other hother hotherBinds := by
    cases List.mem_append.mp hother with
    | inl hearlier => exact h.kept other hearlier hotherBinds
    | inr hlast =>
        obtain rfl := List.mem_singleton.mp hlast
        exact absurd hotherBinds hskips

/-- From the empty store on, the rows are those of the bindings made. -/
theorem rowsOf_made {bindings : List Bound} (hmade : ∀ bound ∈ bindings, Made config hash bound) :
    RowsOf config.holderBindingMode hash (bindings.map Prod.fst)
      (storeAfter {} (bindings.flatMap Prod.snd)) := by
  induction bindings using List.reverseRecOn with
  | nil => exact ⟨MemoryGrantStore.keyed_empty, by simp [storeAfter], by simp⟩
  | append_singleton bindings bound ih =>
      have hrows := ih fun earlier hmem => hmade earlier (List.mem_append_left _ hmem)
      obtain ⟨result, hruns, hserved⟩ := hmade bound (by simp)
      have hlast := runs_bindGrantOnSuccess hruns hserved
      rw [List.map_append, List.flatMap_append, storeAfter_append, List.flatMap_singleton]
      by_cases hbinds : bound.1.Binds config.holderBindingMode
      · rw [if_pos hbinds] at hlast
        obtain ⟨issuedAt, hstore⟩ := hlast
        rw [hstore]
        exact hrows.binding hbinds issuedAt
      · rw [if_neg hbinds] at hlast
        rw [hlast]
        exact hrows.skipping hbinds

/-- A row of a tuple is found until it expires. -/
theorem keeps_of_isFor {tuple : BoundTuple} {grant : Grant}
    (hmem : grant ∈ store.grants.map Prod.snd) (hfor : IsFor tuple grant)
    (hactive : grant.status = .active) : Keeps store tuple := by
  refine ⟨grant, hmem, hfor, hactive, ?_⟩
  intro now hlive scope hscope
  have hlisted : ∀ text ∈ [scope], JsonValue.string text ∈ grant.scopes := by
    intro text htext
    obtain rfl := List.mem_singleton.mp htext
    exact (hfor.scopes _).mpr ⟨text, hscope, rfl⟩
  have hfound := MemoryGrantStore.mem_activeGrants.mpr ⟨hmem, hactive, hlive⟩
  refine ⟨MemoryGrantStore.mem_getByAgent.mpr ⟨hfound, hfor.agentDid, hlisted⟩, ?_⟩
  intro sessionId hsession
  exact MemoryGrantStore.mem_getBySession.mpr
    ⟨hfound, hfor.sessionId.trans hsession, hlisted⟩

theorem BoundTuple.eq_of_isFor {tuple tuple' : BoundTuple} {grant : Grant}
    (h : IsFor tuple grant) (h' : IsFor tuple' grant) : tuple = tuple' := by
  have hagent : tuple.agentDid = tuple'.agentDid := by
    simpa using h.agentDid.symm.trans h'.agentDid
  have hscopes : tuple.scopes = tuple'.scopes := by
    ext text
    simpa using (h.scopes (.string text)).symm.trans (h'.scopes (.string text))
  exact BoundTuple.ext hagent (h.sessionId.symm.trans h'.sessionId) hscopes

/-- Bindings that write one id leave the row of one tuple. -/
theorem RowsOf.tuple_eq {mode : HolderBindingMode} {calls : List StringBinding}
    (h : RowsOf mode hash calls store)
    {call call' : StringBinding} (hid : call.id hash = call'.id hash)
    (hkeeps : Keeps store call.tuple) (hkeeps' : Keeps store call'.tuple) :
    call.tuple = call'.tuple := by
  have hrow : ∀ {other : StringBinding} {grant : Grant}, grant ∈ store.grants.map Prod.snd →
      IsFor other.tuple grant → store.getById (other.id hash) = some grant := by
    intro other grant hmem hfor
    obtain ⟨writer, -, -, issuedAt, rfl⟩ := h.minted grant hmem
    have hsame := BoundTuple.eq_of_isFor hfor (isFor_row writer issuedAt)
    rw [StringBinding.id, text_of_tuple hsame]
    exact h.keyed.getById hmem
  obtain ⟨grant, hmem, hfor, -⟩ := hkeeps
  obtain ⟨grant', hmem', hfor', -⟩ := hkeeps'
  have hsame := (hrow hmem hfor).symm.trans (hid ▸ hrow hmem' hfor')
  obtain rfl := Option.some.inj hsame
  exact BoundTuple.eq_of_isFor hfor hfor'

/-- Every bound tuple keeps a row exactly when no two bound tuples have texts that encode
to the same bytes. -/
theorem bindings_keep_rows_iff (hinjective : Function.Injective hash)
    (hlabelled : ∀ bytes, startsWith (hash bytes) (js "sha256:") = true) {bindings : List Bound}
    (hmade : ∀ bound ∈ bindings, Made config hash bound) :
    (∀ call ∈ bindings.map Prod.fst, call.Binds config.holderBindingMode →
      Keeps (storeAfter {} (bindings.flatMap Prod.snd)) call.tuple) ↔
    ∀ call ∈ bindings.map Prod.fst, ∀ call' ∈ bindings.map Prod.fst,
      call.Binds config.holderBindingMode → call'.Binds config.holderBindingMode →
        encodeUtf8 call.text = encodeUtf8 call'.text → call.tuple = call'.tuple := by
  have hrows := rowsOf_made hmade
  constructor
  · intro hkeeps call hcall call' hcall' hbinds hbinds' hbytes
    refine hrows.tuple_eq ?_ (hkeeps call hcall hbinds) (hkeeps call' hcall' hbinds')
    rw [StringBinding.id, StringBinding.id, hbytes]
  · intro hdistinct call hcall hbinds
    obtain ⟨grant, hgrant⟩ := hrows.kept call hcall hbinds
    have hmem := MemoryGrantStore.mem_of_getById hgrant
    obtain ⟨writer, hwriter, hwriterBinds, issuedAt, rfl⟩ := hrows.minted grant hmem
    -- the row under an id has that id, and ids are told apart by the bytes hashed
    have hid : call.id hash = writer.id hash := hrows.keyed.id_of_getById hgrant
    have hbytes : encodeUtf8 call.text = encodeUtf8 writer.text :=
      hinjective (digestHex_injective (hlabelled _) (hlabelled _) (List.append_cancel_left hid))
    rw [hdistinct call hcall writer hwriter hbinds hwriterBinds hbytes]
    exact keeps_of_isFor hmem (isFor_row writer issuedAt) rfl

/-- Every binding can be made and served. -/
theorem exists_made (config : GrantConfig) (hash : Bytes → Digest) (call : StringBinding) :
    ∃ log, Made config hash (call, log) := by
  by_cases hbinds : call.Binds config.holderBindingMode
  · refine ⟨[⟨.hash (encodeUtf8 call.text), .ok (hash (encodeUtf8 call.text))⟩,
      ⟨.now, .ok (0 : ℚ)⟩, ⟨.bindGrant (call.row hash 0), .ok ()⟩], .ok (), ?_, ?_⟩
    · rw [bindGrantOnSuccess_eq, if_pos hbinds]
      refine Async.runs_tryCatch.mpr (.inl ⟨(), ?_, rfl⟩)
      rw [StringBinding.mint, grantId, grantKey_eq]
      exact .await _ (.await _ (.await _ (.done _)))
    · simp [Served]
  · refine ⟨[], .ok (), ?_, by simp⟩
    rw [bindGrantOnSuccess_eq, if_neg hbinds]
    exact .done _

end Sequences

def sampleConfig : GrantConfig where
  numbers :=
    { isFinite _ := true
      isInteger _ := true
      isSafeInteger _ := true
      strictEquals x y := x = y
      text _ := js "0"
      ofText _ := .ofNat 0 }
  holderBindingMode := .enforce

/-- A labelled hash that keeps its input as it is. -/
def sampleHash (bytes : Bytes) : Digest := js "sha256:" ++ bytes.map (·.toUInt16)

theorem sampleHash_injective : Function.Injective sampleHash := by
  intro left right hsame
  refine List.map_injective_iff.mpr ?_ (List.append_cancel_left hsame)
  intro x y hxy
  have htoNat := congrArg UInt16.toNat hxy
  simp only [UInt8.toNat_toUInt16] at htoNat
  exact UInt8.toNat_inj.mp htoNat

theorem sampleHash_labelled (bytes : Bytes) :
    startsWith (sampleHash bytes) (js "sha256:") = true :=
  startsWith_append _ _

/-- A delegation of these scopes to one agent. -/
def sampleCredential (scopes : List JsString) : JsonValue JsNumber :=
  .object [(js "credentialSubject", .object [(js "id", .string (js "did:web:agent")),
    (js "delegation", .object [(js "scopes", .array (scopes.map .string))])])]

/-- A binding in session `s` of one scope. -/
def oneScope (scopeId : JsString) : StringBinding where
  vc := sampleCredential [scopeId]
  delegationArg := .null
  isVCJWT := false
  sessionId := some (js "s")
  scopeId
  expiresAt := none
  agentDid := js "did:web:agent"
  delegatedScopes := [scopeId]
  agentDid_eq := rfl
  delegatedScopes_eq := rfl

/-- A binding in the same session of the two scopes that the comma seems to part. -/
def twoScopes : StringBinding where
  vc := sampleCredential [js "a", js "b"]
  delegationArg := .null
  isVCJWT := false
  sessionId := some (js "s")
  scopeId := js "a"
  expiresAt := none
  agentDid := js "did:web:agent"
  delegatedScopes := [js "a", js "b"]
  agentDid_eq := rfl
  delegatedScopes_eq := rfl

theorem text_oneScope (scopeId : JsString) :
    (oneScope scopeId).text = js "did:web:agent|s|" ++ scopeId := by
  have hsorted : sortTexts ([scopeId, scopeId] : List JsString).dedup = [scopeId] := by
    simp [sortTexts, Json.byName]
  simp only [StringBinding.text, oneScope, hsorted, List.intercalate_singleton]
  rfl

theorem text_twoScopes : twoScopes.text = js "did:web:agent|s|a,b" := by
  have hsorted : sortTexts ([js "a", js "a", js "b"] : List JsString).dedup = [js "a", js "b"] := by
    rw [show ([js "a", js "a", js "b"] : List JsString).dedup = [js "a", js "b"] by decide,
      sortTexts, Json.byName, List.map_cons, List.map_cons, List.map_nil,
      List.mergeSort_of_pairwise (List.pairwise_pair.mpr (by decide))]
    rfl
  simp only [StringBinding.text, twoScopes, hsorted]
  decide

/-- A scope whose name holds a comma, and the two that it seems to part. -/
theorem bindings_overwritten :
    ¬ ∀ bindings : List Bound, (∀ bound ∈ bindings, Made sampleConfig sampleHash bound) →
      ∀ call ∈ bindings.map Prod.fst, call.Binds .enforce →
        Keeps (storeAfter {} (bindings.flatMap Prod.snd)) call.tuple := by
  intro h
  obtain ⟨log, hlog⟩ := exists_made sampleConfig sampleHash (oneScope (js "a,b"))
  obtain ⟨log', hlog'⟩ := exists_made sampleConfig sampleHash twoScopes
  have hmade : ∀ bound ∈ [(oneScope (js "a,b"), log), (twoScopes, log')],
      Made sampleConfig sampleHash bound := by
    simp [hlog, hlog']
  have hkeeps := h _ hmade
  have hid : (oneScope (js "a,b")).id sampleHash = twoScopes.id sampleHash := by
    rw [StringBinding.id, StringBinding.id, text_oneScope, text_twoScopes]
    rfl
  have hsame := (rowsOf_made hmade).tuple_eq hid
    (hkeeps (oneScope (js "a,b")) (by simp) (by decide)) (hkeeps twoScopes (by simp) (by decide))
  exact absurd (congrArg BoundTuple.scopes hsame) (by decide)

/-- A tuple that is bound twice and another that is bound in between keep their rows. -/
theorem bindings_keep_rows_rebound :
    ∃ log log' : List (Exchange Gates),
      Keeps (storeAfter {} (log ++ (log' ++ log))) (oneScope (js "c")).tuple ∧
        Keeps (storeAfter {} (log ++ (log' ++ log))) twoScopes.tuple := by
  obtain ⟨log, hlog⟩ := exists_made sampleConfig sampleHash (oneScope (js "c"))
  obtain ⟨log', hlog'⟩ := exists_made sampleConfig sampleHash twoScopes
  have hmade : ∀ bound ∈ [(oneScope (js "c"), log), (twoScopes, log'), (oneScope (js "c"), log)],
      Made sampleConfig sampleHash bound := by
    simp [hlog, hlog']
  have htexts : encodeUtf8 (oneScope (js "c")).text ≠ encodeUtf8 twoScopes.text := by
    rw [text_oneScope, text_twoScopes]
    decide
  have hkeeps := (bindings_keep_rows_iff sampleHash_injective sampleHash_labelled hmade).mpr
    (by simp [htexts, htexts.symm])
  refine ⟨log, log', ?_, ?_⟩
  · simpa using hkeeps (oneScope (js "c")) (by simp) (by decide)
  · simpa using hkeeps twoScopes (by simp) (by decide)

end KyaOs.Middleware
