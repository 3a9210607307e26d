import XmlTable.Proofs.Deliveries
import XmlTable.Proofs.Settlement

/-!
# What an entity means

The values of entities are known twice: the reader knows the literals of the last internal subset
that it read, and expands references by them; the document knows the values that were declared
first, and answers questions by them. When there is only one internal subset both agree, and
references in the content and in the attributes of elements are spelled out as the document says.
With a second one they need not agree.
-/

namespace XmlTable

open Node

/-- At most one of some tokens has an internal subset. -/
def Token.OneSubset (tokens : List (Nat × Token)) : Prop :=
  tokens.countP (·.2.hasSubset) ≤ 1

theorem Token.OneSubset.of_append {tokens later : List (Nat × Token)}
    (h : OneSubset (tokens ++ later)) : OneSubset tokens := by
  rw [OneSubset, List.countP_append] at h
  exact Nat.le_trans (Nat.le_add_right ..) h

namespace Reader

open Delivery Reference

variable {σ : Type} {sink : Sink σ} {reader reader' : Reader} {read later : List (Nat × Token)}
  {earlier events : List Event}

/-! ### What a reader knows -/

/-- What a reader knows when some tokens were read and some events delivered. -/
structure Knows (read : List (Nat × Token)) (earlier : List Event) (reader : Reader) : Prop where
  /-- Elements are open in the document element only. -/
  opens : reader.openElements ≠ [] → reader.seenRoot = true
  /-- Without an internal subset it knows of no declarations. -/
  fresh : read.countP (·.2.hasSubset) = 0 → reader.declarations = .none
  /-- The entities that it knows were declared with the values that it gives them. -/
  declared : Event.declarations earlier = reader.declarations.valued

theorem knows_start (limit : Nat) : Knows [] [.startDocument] (start limit) where
  opens none := absurd rfl none
  fresh _ := rfl
  declared := rfl

/-- A reader that reads a token knows what it has to know after it. -/
theorem Knows.step (h : Knows read earlier reader) {position : Nat} {token : Token}
    (one : Token.OneSubset (read ++ [(position, token)]))
    (reads : Reads reader token reader' events) :
    Knows (read ++ [(position, token)]) (earlier ++ events) reader' where
  opens := reads.opens
  fresh none := by
    rw [List.countP_append, Nat.add_eq_zero_iff] at none
    have subset : token.hasSubset = false := by simpa using none.2
    exact (reads.declares_nothing subset).1.trans (h.fresh none.1)
  declared := by
    rw [Event.declarations, List.filterMap_append]
    cases subset : token.hasSubset with
    | true =>
      -- The subset is the first one, so nothing was declared before.
      have none : read.countP (·.2.hasSubset) = 0 := by
        rw [Token.OneSubset, List.countP_append, List.countP_singleton, if_pos subset] at one
        omega
      have declares := reads.declares
      rw [if_pos subset] at declares
      have before := h.declared
      rw [h.fresh none] at before
      exact (congrArg (· ++ _) before).trans declares
    | false =>
      obtain ⟨same, nothing⟩ := reads.declares_nothing subset
      rw [same, ← h.declared]
      exact (congrArg (_ ++ ·) nothing).trans (List.append_nil _)

/-- So does a reader that reads some tokens. Once the document element has begun the declarations
stay as they are. -/
theorem Knows.yields_readTokens (h : Knows read earlier reader) (patience : Nat)
    (one : Token.OneSubset (read ++ later)) :
    Yields sink (readTokens sink patience later) reader fun _ reader' events =>
      Knows (read ++ later) (earlier ++ events) reader' ∧
        (reader.seenRoot = true → reader'.seenRoot = true ∧
          reader'.declarations = reader.declarations) := by
  induction later generalizing read earlier reader with
  | nil =>
    rw [List.append_nil]
    refine .pure () ⟨?_, fun seen => ⟨seen, rfl⟩⟩
    rw [List.append_nil]
    exact h
  | cons token rest ih =>
    obtain ⟨position, token⟩ := token
    rw [List.append_cons] at one ⊢
    refine (yields_readToken patience position token h.opens).bind fun _ reader₁ events reads => ?_
    refine (ih (h.step one.of_append reads) one).mono fun _ reader₂ more ⟨knows, stays⟩ => ?_
    refine ⟨by rwa [← List.append_assoc], fun seen => ?_⟩
    obtain ⟨seen₁, subset⟩ := reads.begun seen
    obtain ⟨seen₂, same⟩ := stays seen₁
    exact ⟨seen₂, same.trans (reads.declares_nothing subset).1⟩

end Reader

/-! ### What the document knows -/

namespace Builder

variable {config : Config} {s t : Builder × Journal} {events : List Event}

/-- A builder that takes some events learns what they declare. -/
theorem learns_of_receives (h : sink.Receives s events t) (hs : s.1.Consistent config) :
    t.1.Consistent config ∧
      s.1.document.entities.Learns (Event.declarations events) t.1.document.entities := by
  induction h with
  | done => exact ⟨hs, .nothing rfl⟩
  | @take state _ journal event events t u accepted _ ih =>
    have learns := ((accept_meets (s := (state, journal)) hs event).and
      (accept_learns (s := (state, journal)) hs event)).of_ok accepted
    obtain ⟨consistent, more⟩ := ih (learns.1.consistent hs)
    refine ⟨consistent, ?_⟩
    have both := learns.2.trans more
    cases hd : event.declared? with
    | none =>
      rw [hd] at both
      rwa [Event.declarations, List.filterMap_cons_none hd]
    | some entity =>
      rw [hd] at both
      rwa [Event.declarations, List.filterMap_cons_some hd]

end Builder

/-- What was declared with its values is known with them. -/
theorem Subset.Declarations.lookup_valued (declarations : Declarations) (name : String) :
    declarations.valued.lookup name =
      (declarations.entity? name).map (Reference.valueOf declarations.entity?) := by
  unfold valued entity?
  generalize Reference.valueOf (fun name => declarations.entities.lookup name) = valueOf
  induction declarations.entities with
  | nil => rfl
  | cons entity rest ih =>
    rw [List.map_cons, List.lookup_cons, List.lookup_cons]
    split
    · rfl
    · exact ih

/-- A complete document says the values of entities that its table has. -/
theorem Query.run_entityValue {d : Document} (done : d.isDone = true) (name : String) :
    (Query.entityValue name).run.run d = .answer (.ok (d.entities.value? name)) := by
  have ready : (d.entities.isSealed || d.isDone || (d.entities.get? name).isSome) = true := by
    rw [done, Bool.or_true, Bool.true_or]
  have entity : (Query.entity name).run.run d = .answer (.ok (d.entities.get? name)) := by
    show Query.run d (.await 3 _ _ _) = _
    rw [Query.run, if_pos ready]
    rfl
  show Query.run d (Query.bind (Query.entity name).run _) = _
  rw [Query.run_bind, entity]
  rfl

/-! ### Agreement -/

/-- References stay spelled out with other values if these are the same where there are any. -/
theorem Token.IsSpelled.congr {value? value?' : String → Option String} {reader : Reader}
    {token : Token} {events : List Event} (h : token.IsSpelled value? reader events)
    (same : (reader.openElements ≠ [] ∨
      ∃ name attributes, .startElement name attributes ∈ events) → value? = value?') :
    token.IsSpelled value?' reader events := by
  cases token with
  | start tag =>
    obtain ⟨name, attributes, rfl, spelled⟩ := h
    rw [← same (.inr ⟨name, attributes, List.mem_cons_self⟩)]
    exact ⟨name, attributes, rfl, spelled⟩
  | empty tag =>
    obtain ⟨name, attributes, rfl, spelled⟩ := h
    rw [← same (.inr ⟨name, attributes, List.mem_cons_self⟩)]
    exact ⟨name, attributes, rfl, spelled⟩
  | text content =>
    obtain ⟨written, decoded, spelled⟩ := h
    refine ⟨written, decoded, ?_⟩
    unfold Event.SpellOut at *
    split
    · next outside =>
      rw [outside] at spelled
      exact spelled
    · next elementsOnly outer inside =>
      rw [inside] at spelled
      rw [← same (.inl (by rw [inside]; nofun))]
      exact spelled
  | _ => trivial

/-- Character data in an element is spelled out by the texts of its events. -/
theorem Token.IsSpelled.join_written {value? : String → Option String} {reader : Reader}
    {content : Bytes} {events : List Event} {written : String}
    (h : (Token.text content).IsSpelled value? reader events) (inside : reader.openElements ≠ [])
    (decoded : content.utf8? = some written) : String.join (events.map Event.written) =
      Reference.spelled value? (Text.normalizeLineEnds written) := by
  obtain ⟨written', decoded', spelled⟩ := h
  cases decoded.symm.trans decoded'
  unfold Event.SpellOut at spelled
  split at spelled
  · next outside => exact absurd outside inside
  · exact spelled.2

/-- Which events were delivered can be told from the calls before and after them. -/
theorem Call.events_eq {earlier later : List Call} {before events events' : List Event}
    (calls : later = earlier ++ events.map (⟨·, .ok ()⟩))
    (early : earlier.map (·.event) = before) (late : later.map (·.event) = before ++ events') :
    events = events' := by
  have both : later.map (·.event) = earlier.map (·.event) ++ events := by
    rw [calls, List.map_append, List.map_map]
    exact congrArg _ (List.map_id _)
  rw [early, late] at both
  exact (List.append_cancel_left both).symm

namespace Reader

open Delivery

variable {σ : Type} {sink : Sink σ}

/-- Begin a document and read its first tokens. -/
def begin (sink : Sink σ) (patience : Nat) (tokens : List (Nat × Token)) : Delivery σ Unit := do
  deliver sink .startDocument
  readTokens sink patience tokens

/-- What came of reading the first tokens of a document. -/
def runFirst (sink : Sink σ) (patience limit : Nat) (tokens : List (Nat × Token)) (state : σ)
    (journal : Journal) : Result σ :=
  let ((outcome, reader), state, journal) :=
    (begin sink patience tokens).ending (.start limit) (state, journal)
  ⟨outcome, reader, state, journal⟩

theorem yields_begin (patience limit : Nat) {tokens : List (Nat × Token)}
    (one : Token.OneSubset tokens) : Yields sink (begin sink patience tokens) (start limit)
      fun _ reader events => Knows tokens events reader := by
  refine (yields_deliver _).bind ?_
  rintro _ _ _ ⟨rfl, rfl⟩
  exact ((knows_start limit).yields_readTokens patience one).mono fun _ _ _ knows => knows.1

/-- A document that is read to its end was read up to any of its tokens, then that token, then those
after it, then the end. -/
theorem exists_of_readDocument {patience : Nat} {stream : Token.Stream}
    {before after : List (Nat × Token)} {position : Nat} {token : Token}
    (split : stream.tokens = before ++ (position, token) :: after) {reader reader' : Reader}
    {s t : σ × Journal}
    (ends : (readDocument sink patience stream).ending reader s = ((.ok (), reader'), t)) :
    ∃ reader₁ reader₂ reader₃ s₁ s₂ s₃,
      (begin sink patience before).ending reader s = ((.ok (), reader₁), s₁) ∧
      (readToken sink patience position token).ending reader₁ s₁ = ((.ok (), reader₂), s₂) ∧
      (readTokens sink patience after).ending reader₂ s₂ = ((.ok (), reader₃), s₃) ∧
      (finish sink stream.ending).ending reader₃ s₃ = ((.ok (), reader'), t) := by
  have parts : readDocument sink patience stream =
      begin sink patience before >>= fun _ => readToken sink patience position token >>= fun _ =>
        readTokens sink patience after >>= fun _ => finish sink stream.ending := by
    rw [readDocument, split, readTokens_append, begin, readTokens]
    simp only [bind_assoc]
  rw [parts] at ends
  obtain ⟨_, reader₁, s₁, first, ends⟩ := ending_bind_eq_ok ends
  obtain ⟨_, reader₂, s₂, second, ends⟩ := ending_bind_eq_ok ends
  obtain ⟨_, reader₃, s₃, third, last⟩ := ending_bind_eq_ok ends
  exact ⟨reader₁, reader₂, reader₃, s₁, s₂, s₃, first, second, third, last⟩

/-- A source that is read well is read as a document. -/
theorem exists_of_run_eq_ok {patience limit : Nat} {source : Source} {state : σ} {journal : Journal}
    (built : (run sink patience limit source state journal).outcome = .ok ()) :
    ∃ reader t, (readDocument sink patience source.tokens).ending (.start limit) (state, journal) =
        ((.ok (), reader), t) ∧ (run sink patience limit source state journal).state = t.1 ∧
      (run sink patience limit source state journal).reader = reader := by
  rw [run_eq_runTokens, runTokens, read, ending_tryCatch] at built ⊢
  generalize (readDocument sink patience source.tokens).ending (.start limit) (state, journal) = r
    at built ⊢
  obtain ⟨⟨_ | _, reader⟩, t⟩ := r
  · next stop => cases stop <;> cases built
  · exact ⟨reader, t, rfl, rfl, rfl⟩

/-- Up to a token and that token are the first tokens up to it. -/
theorem ending_begin_append {patience : Nat} {before : List (Nat × Token)} {position : Nat}
    {token : Token} {reader reader₁ reader₂ : Reader} {s s₁ s₂ : σ × Journal}
    (first : (begin sink patience before).ending reader s = ((.ok (), reader₁), s₁))
    (second : (readToken sink patience position token).ending reader₁ s₁ =
      ((.ok (), reader₂), s₂)) :
    (begin sink patience (before ++ [(position, token)])).ending reader s =
      ((.ok (), reader₂), s₂) := by
  have parts : begin sink patience (before ++ [(position, token)]) =
      begin sink patience before >>= fun _ => readToken sink patience position token := by
    rw [begin, begin, readTokens_append, bind_assoc]
    refine bind_congr fun _ => bind_congr fun _ => ?_
    rw [readTokens, readTokens, bind_pure_unit]
  rw [parts, ending_bind, first]
  exact second

end Reader

namespace Construction

open Reader Builder Reference

variable {config : Config} {handler : Handler} {patience : Nat} {source : Source}

/-- What came of reading the first tokens of a source to a builder that is watched. -/
def reading (config : Config) (handler : Handler) (patience : Nat)
    (tokens : List (Nat × Token)) : Result (Builder × List Call) :=
  runFirst sink.watched patience config.expansionLimit tokens (start config, []) { handler }

/-- A document that was built was read, by a builder that has it and has seen its end. -/
theorem serves_of_built (built : (ofSource config handler patience source).outcome = .ok ()) :
    let result := Reader.run sink patience config.expansionLimit source (start config) { handler }
    result.outcome = .ok () ∧ (ofSource config handler patience source).builder = result.state ∧
      Serves config .ended result.state := by
  intro result
  have wasRead : WasReadTo config { handler } result.outcome (result.state, result.journal) :=
    wasReadTo_run config { handler } patience config.expansionLimit source
  have construction : ofSource config handler patience source =
      ⟨result.outcome, result.state, result.journal⟩ :=
    ofSource_eq config handler patience source
  rw [construction] at built ⊢
  have outcome : result.outcome = .ok () := built
  rw [outcome] at wasRead
  cases wasRead with
  | done serves _ => exact ⟨outcome, rfl, serves⟩

/-- A document that was built was read by a watched builder that has it, and is complete. -/
theorem exists_of_built (built : (ofSource config handler patience source).outcome = .ok ()) :
    (ofSource config handler patience source).builder.document.isDone = true ∧
    ∃ reader t, (readDocument sink.watched patience source.tokens).ending
        (.start config.expansionLimit) ((start config, []), { handler }) = ((.ok (), reader), t) ∧
      (ofSource config handler patience source).builder = t.1.1 := by
  have served := serves_of_built built
  have watches := watches_run sink patience config.expansionLimit source (start config) { handler }
  dsimp only at served
  rw [watches.same] at served
  dsimp only at served
  obtain ⟨outcome, builder, serves⟩ := served
  obtain ⟨reader, t, document, state, -⟩ := exists_of_run_eq_ok outcome
  rw [builder]
  exact ⟨serves.consistent.closed serves.stage, reader, t, document, congrArg Prod.fst state⟩

/-- When a watched builder has taken events from its start, its table has the values of the entities
that a reader of those events knows. -/
theorem value?_of_knows {read : List (Nat × Token)} {events : List Event} {reader : Reader}
    {journal : Journal} {t : (Builder × List Call) × Journal} (knows : Knows read events reader)
    (taken : sink.watched.Receives ((start config, []), journal) events t) :
    t.1.1.document.entities.value? = values reader.declarations.entity? := by
  have learns := (learns_of_receives taken.of_watched.1 (consistent_start config)).2
  funext name
  have initial : (start config).document.entities.value? name = Entity.predefined.lookup name :=
    Entity.Table.value?_initial name
  rw [learns name, initial, knows.declared, Subset.Declarations.lookup_valued, values]

/-- In a document that is read to its end references in a token are spelled out as the table in the
end says. -/
theorem exists_spelled {stream : Token.Stream} (one : Token.OneSubset stream.tokens)
    {journal : Journal} {limit : Nat} {reader' : Reader} {t : (Builder × List Call) × Journal}
    (ends : (readDocument sink.watched patience stream).ending (.start limit)
      ((start config, []), journal) = ((.ok (), reader'), t))
    {before after : List (Nat × Token)} {position : Nat} {token : Token}
    (split : stream.tokens = before ++ (position, token) :: after) :
    ∃ events reader₁ s₁ reader₂ s₂,
      (begin sink.watched patience before).ending (.start limit) ((start config, []), journal) =
        ((.ok (), reader₁), s₁) ∧
      (begin sink.watched patience (before ++ [(position, token)])).ending (.start limit)
        ((start config, []), journal) = ((.ok (), reader₂), s₂) ∧
      s₂.1.2 = s₁.1.2 ++ events.map (⟨·, .ok ()⟩) ∧
      token.IsSpelled t.1.1.document.entities.value? reader₁ events := by
  rw [split, List.append_cons] at one
  obtain ⟨reader₁, reader₂, reader₃, s₁, s₂, s₃, first, second, third, last⟩ :=
    exists_of_readDocument split ends
  obtain ⟨events₁, taken₁, knows₁⟩ :=
    yields_begin patience limit one.of_append.of_append _ _ _ _ first
  obtain ⟨events₂, taken₂, reads⟩ := yields_readToken patience position token knows₁.opens
    _ _ _ _ second
  have knows₂ := knows₁.step one.of_append reads
  obtain ⟨events₃, taken₃, knows₃, stays⟩ := knows₂.yields_readTokens patience one _ _ _ _ third
  obtain ⟨events₄, taken₄, rfl, -, rfl⟩ := yields_finish stream.ending _ _ _ _ last
  -- The end of the document declares nothing, so what is known before it is known after it.
  have knows : Knows _ ((events₁ ++ events₂ ++ events₃) ++ [.endDocument]) reader' :=
    { knows₃ with
      declared := by
        rw [Event.declarations, List.filterMap_append]
        exact (List.append_nil _).trans knows₃.declared }
  have values := value?_of_knows knows (((taken₁.append taken₂).append taken₃).append taken₄)
  refine ⟨events₂, reader₁, s₁, reader₂, s₂, first, ending_begin_append first second,
    taken₂.of_watched.2, ?_⟩
  rw [values]
  refine reads.spelled.congr fun refers => ?_
  -- Where there are references, the document element has begun and the declarations stay.
  obtain ⟨seen, subset⟩ : reader₂.seenRoot = true ∧ token.hasSubset = false := by
    rcases refers with inside | ⟨name, attributes, starts⟩
    · exact reads.begun (knows₁.opens inside)
    · exact reads.begins name attributes starts
  rw [(stays seen).2, (reads.declares_nothing subset).1]

/-- An entity means the same in the document and in the text: every reference in the content or in
the attributes of an element is spelled out in the events that were delivered for its token, and a
reference to an entity of which the document says the value is spelled out as that value. -/
def AgreesOnEntities (config : Config) (handler : Handler) (patience : Nat) (source : Source) :
    Prop :=
  ∃ value? : String → Option String,
    (∀ name, (Query.entityValue name).run.run
      (ofSource config handler patience source).builder.document = .answer (.ok (value? name))) ∧
    ∀ before position token after, source.tokens.tokens = before ++ (position, token) :: after →
      let earlier := reading config handler patience before
      let later := reading config handler patience (before ++ [(position, token)])
      ∃ events : List Event, later.state.2 = earlier.state.2 ++ events.map (⟨·, .ok ()⟩) ∧
        token.IsSpelled value? earlier.reader events

end Construction

end XmlTable
