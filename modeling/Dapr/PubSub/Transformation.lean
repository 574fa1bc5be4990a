import Dapr.PubSub.Outbox
/-!
# What the outbox makes of a transaction

A call returns the operations that are not projections, with a marker for each set, and publishes a
message for each set, exactly when the projections are separated and no set with binary data has a
metadata entry of the name that the data has in its event.
-/

namespace Dapr.PubSub

open Lib.Slices List

/-! ## What the outbox is for -/

section Spec
variable {V : Type} {isBinary : String → Bool}

def setsOf (ops : List (Operation V)) : List (SetRequest V) :=
  ops.filterMap fun
    | .set sr => some sr
    | .delete _ => none

def stored (isTruthy : String → Bool) (ops : List (Operation V)) : List (Operation V) :=
  ops.filter fun op => !isProjection isTruthy op

def projectionFor (isTruthy : String → Bool) (ops : List (Operation V)) (key : String) : Option (SetRequest V) :=
  (setsOf (ops.filter (isProjection isTruthy))).reverse.find? fun sr => sr.key = key

/-- The request whose value is published for a set. -/
def publishedFor (isTruthy : String → Bool) (ops : List (Operation V)) (sr : SetRequest V) : SetRequest V :=
  (projectionFor isTruthy ops sr.key).getD sr

/-- A message to the internal topic that has the value of a request as its data. -/
structure Carries (env : Env V isBinary) (c : OutboxConfig) (o : Outbox) (source : String) (sr : SetRequest V)
    (req : PublishRequest V) : Prop where
  pubsubName : req.pubsubName = c.outboxPubsub
  topic : req.topic = outboxTopic source c.publishTopic o.namespaceName
  data : ∃ ceData, encode env sr.value sr.contentTypeOf = .ok ceData ∧
    req.data.lookup (fieldOf isBinary sr.contentTypeOf) = some (env.events.content sr.contentTypeOf ceData)

/-- A call does not panic, and if it succeeds it returns the stored operations with a marker for each set, and has
published a message for each set. -/
def Transforms (isTruthy isBinary : String → Bool) (ops : List (Operation V)) : Prop :=
  ∀ (env : Env V isBinary) (o : Outbox) (stateStore source traceID traceState : String),
    match o.publishInternal isTruthy env stateStore ops source traceID traceState with
    | (.panicked, _) => False
    | (.failed _, _) => True
    | (.ok result, sent) => ∃ c markers, o.outboxStores.lookup stateStore = some c ∧
        result = stored isTruthy ops ++ markers ∧
        markers.length = (setsOf (stored isTruthy ops)).length ∧
        (∀ marker ∈ markers, ∃ uid, marker = .set (transaction uid)) ∧
        (setsOf (stored isTruthy ops)).Forall₂
          (fun sr req => Carries env c o source (publishedFor isTruthy ops sr) req) sent

end Spec

/-! ## Projections -/

section Projections
variable {V : Type} {isTruthy : String → Bool} {ops : List (Operation V)}

/-- The map has the last projection for each key. -/
theorem lookup_projections (key : String) (l : List (Operation V)) :
    (l.foldl addProjection ∅).lookup key = (setsOf l).reverse.find? fun sr => sr.key = key := by
  induction l using reverseRecOn with
  | nil => rfl
  | append_singleton l op ih =>
    rw [foldl_append, foldl_cons, foldl_nil]
    cases op with
    | delete k => simpa [setsOf, addProjection] using ih
    | set sr =>
      have hsets : setsOf (l ++ [.set sr]) = setsOf l ++ [sr] := by simp [setsOf]
      rw [hsets, reverse_append, reverse_singleton, singleton_append, addProjection]
      by_cases hk : sr.key = key
      · subst hk
        simp
      · rw [AList.lookup_insert_ne (Ne.symm hk), find?_cons_of_neg (by simpa using hk), ih]

end Projections

/-! ## Messages -/

section Messages
variable {V : Type} {isBinary : String → Bool}

theorem lookup_overlay {metadata : AList fun _ : String => String} {ce : Event V} {k : String}
    (h : k = dataField ∨ k ∉ metadata) : (overlay metadata ce).lookup k = ce.lookup k := by
  have hfold : ∀ (l : List (Sigma fun _ : String => String)) (ce : Event V), (∀ e ∈ l, k = dataField ∨ e.1 ≠ k) →
      (l.foldl (fun ce e => if e.1 = dataField ∨ e.1 = idField then ce else ce.insert e.1 (.text e.2)) ce).lookup k =
        ce.lookup k := by
    intro l
    induction l with
    | nil => exact fun _ _ => rfl
    | cons e l ih =>
      intro ce hl
      rw [foldl_cons, ih _ fun e he => hl e (mem_cons_of_mem _ he)]
      split
      · rfl
      · next hfield =>
        refine AList.lookup_insert_ne fun heq => ?_
        rcases hl e mem_cons_self with hk | hk
        · exact hfield (.inl (heq ▸ hk))
        · exact hk heq.symm
  refine hfold _ ce fun e he => h.imp_right fun hk heq => hk ?_
  rw [← heq]
  exact mem_map.2 ⟨e, he, rfl⟩

theorem lookup_overlay_base64 {metadata : AList fun _ : String => String} (ce : Event V)
    (h : dataBase64Field ∈ metadata) : ∃ v, (overlay metadata ce).lookup dataBase64Field = some (.text v) := by
  have hfold : ∀ (l : List (Sigma fun _ : String => String)) (ce : Event V),
      (∃ e ∈ l, e.1 = dataBase64Field) ∨ (∃ v, ce.lookup dataBase64Field = some (.text v)) →
      ∃ v, (l.foldl (fun ce e => if e.1 = dataField ∨ e.1 = idField then ce else ce.insert e.1 (.text e.2)) ce).lookup
        dataBase64Field = some (.text v) := by
    intro l
    induction l with
    | nil => exact fun ce h => h.resolve_left (by simp)
    | cons e l ih =>
      intro ce hl
      rw [foldl_cons]
      apply ih
      by_cases he : e.1 = dataBase64Field
      · refine .inr ⟨e.2, ?_⟩
        rw [he, if_neg (by decide), AList.lookup_insert]
      · rcases hl with ⟨e', he', hkey⟩ | ⟨v, hv⟩
        · rcases mem_cons.1 he' with rfl | he'
          · exact absurd hkey he
          · exact .inl ⟨e', he', hkey⟩
        · refine .inr ⟨v, ?_⟩
          split
          · exact hv
          · rw [AList.lookup_insert_ne (Ne.symm he), hv]
  obtain ⟨e, he, hkey⟩ := mem_map.1 (AList.mem_keys.1 h)
  exact hfold _ ce (.inl ⟨e, he, hkey⟩)

section Loop
variable {env : Env V isBinary} {c : OutboxConfig} {origin : Origin} {projections : Projections V}

/-- A message comes from the projection for the set's key, or from the set itself. -/
theorem messageOf_ok {uid : String} {sr : SetRequest V} {req : PublishRequest V}
    (h : messageOf env c origin projections uid sr = .ok req) :
    req.pubsubName = c.outboxPubsub ∧ req.topic = outboxTopic origin.source c.publishTopic origin.namespaceName ∧
      ∃ ceData ce, encode env ((projections.lookup sr.key).getD sr).value
          ((projections.lookup sr.key).getD sr).contentTypeOf = .ok ceData ∧
        ce.lookup (fieldOf isBinary ((projections.lookup sr.key).getD sr).contentTypeOf) =
          some (env.events.content ((projections.lookup sr.key).getD sr).contentTypeOf ceData) ∧
        req.data = overlay sr.metadata ce := by
  have hsource : payloadOf projections sr =
      (((projections.lookup sr.key).getD sr).value, ((projections.lookup sr.key).getD sr).contentTypeOf) := by
    unfold payloadOf
    cases projections.lookup sr.key <;> rfl
  unfold messageOf at h
  rw [hsource] at h
  dsimp only at h
  split at h
  · cases h
  · next ceData hdata =>
    split at h
    · cases h
    · cases h
      refine ⟨rfl, rfl, ceData, _, hdata, ?_, rfl⟩
      rw [AList.lookup_insert_ne, env.events.carries]
      unfold fieldOf
      split <;> decide

theorem publishSets_ok {ops markers markers' : List (Operation V)} {sent sent' : List (PublishRequest V)}
    (h : publishSets env c origin projections ops markers sent = (.ok markers', sent')) :
    ∃ new msgs, markers' = markers ++ new ∧ sent' = sent ++ msgs ∧ new.length = (setsOf ops).length ∧
      (∀ marker ∈ new, ∃ uid, marker = .set (transaction uid)) ∧
      (setsOf ops).Forall₂ (fun sr req => ∃ uid, messageOf env c origin projections uid sr = .ok req) msgs := by
  induction ops generalizing markers sent with
  | nil =>
    cases h
    exact ⟨[], [], by simp, by simp, rfl, by simp, .nil⟩
  | cons op ops ih =>
    cases op with
    | delete k => exact ih h
    | set sr =>
      unfold publishSets at h
      split at h
      · cases h
      · next uid _ =>
        split at h
        · cases h
        · next req hreq =>
          split at h
          · cases h
          · obtain ⟨new, msgs, hnew, hmsgs, hlen, hmarkers, hsent⟩ := ih h
            refine ⟨.set (transaction uid) :: new, req :: msgs, by simp [hnew], by simp [hmsgs], ?_, ?_, ?_⟩
            · simpa [setsOf] using hlen
            · exact forall_mem_cons.2 ⟨⟨uid, rfl⟩, hmarkers⟩
            · exact .cons ⟨uid, hreq⟩ hsent

end Loop

/-- The libraries and the publisher never fail, and the content of every event is empty. -/
def calm (V : Type) (isBinary : String → Bool) : Env V isBinary where
  newRandom := fun _ => .ok ""
  marshal := fun _ => .ok []
  format := fun _ => []
  marshalEvent := fun _ => .ok ()
  publish := fun _ => .ok ()
  events := {
    content := fun _ _ => .bytes []
    newCloudEventsEnvelope := fun _ _ _ _ _ _ contentType _ _ _ => .singleton (fieldOf isBinary contentType) (.bytes [])
    carries := by simp [AList.lookup] }

theorem publishSets_calm (isBinary : String → Bool) (c : OutboxConfig) (origin : Origin) (projections : Projections V)
    (ops : List (Operation V)) : ∀ markers sent, ∃ markers' sent',
      publishSets (calm V isBinary) c origin projections ops markers sent = (.ok markers', sent') := by
  induction ops with
  | nil => exact fun markers sent => ⟨markers, sent, rfl⟩
  | cons op ops ih =>
    intro markers sent
    cases op with
    | delete k => exact ih markers sent
    | set sr =>
      have hencode : ∀ payload contentType, ∃ data, encode (calm V isBinary) payload contentType = .ok data := by
        intro payload contentType
        unfold encode
        split
        · exact ⟨_, rfl⟩
        · split <;> exact ⟨_, rfl⟩
      have hmessage : ∃ req, messageOf (calm V isBinary) c origin projections "" sr = .ok req := by
        unfold messageOf
        dsimp only
        split
        · next herr =>
          obtain ⟨data, hdata⟩ := hencode _ _
          rw [hdata] at herr
          cases herr
        · exact ⟨_, rfl⟩
      obtain ⟨req, hreq⟩ := hmessage
      unfold publishSets
      simp only [calm] at hreq ⊢
      rw [hreq]
      exact ih _ _

end Messages

/-! ## The whole call -/

section Whole
variable {V : Type} {isTruthy isBinary : String → Bool} {ops : List (Operation V)}

/-- No set whose binary data is published has a metadata entry of the name of the event's data. -/
def DataKept (isTruthy isBinary : String → Bool) (ops : List (Operation V)) : Prop :=
  ∀ sr ∈ setsOf (stored isTruthy ops), isBinary (publishedFor isTruthy ops sr).contentTypeOf = true →
    dataBase64Field ∉ sr.metadata

/-- The first loop over separated projections. -/
theorem sweep_projections (h : Separated (isProjection isTruthy) ops) :
    ∃ s projections, sweep (isProjection isTruthy) addProjection ops.length 0 (.ofList ops) ∅ = some (s, projections) ∧
      s.toList = stored isTruthy ops ∧
      ∀ sr : SetRequest V, (projections.lookup sr.key).getD sr = publishedFor isTruthy ops sr := by
  obtain ⟨s, hs, htoList⟩ := sweep_of_separated h (∅ : Projections V)
  refine ⟨s, _, hs, htoList, fun sr => ?_⟩
  rw [lookup_projections]
  rfl

theorem carries_of_message {env : Env V isBinary} {c : OutboxConfig} {o : Outbox} {source traceID traceState uid : String}
    {projections : Projections V} {sr : SetRequest V} {req : PublishRequest V}
    (hsource : (projections.lookup sr.key).getD sr = publishedFor isTruthy ops sr)
    (hkept : isBinary (publishedFor isTruthy ops sr).contentTypeOf = true → dataBase64Field ∉ sr.metadata)
    (h : messageOf env c ⟨source, traceID, traceState, o.namespaceName⟩ projections uid sr = .ok req) :
    Carries env c o source (publishedFor isTruthy ops sr) req := by
  obtain ⟨hpubsub, htopic, ceData, ce, hdata, hcontent, hreq⟩ := messageOf_ok h
  rw [hsource] at hdata hcontent
  refine ⟨hpubsub, htopic, ceData, hdata, ?_⟩
  rw [hreq, lookup_overlay, hcontent]
  unfold fieldOf
  split
  · next hbinary => exact .inr (hkept hbinary)
  · exact .inl rfl

theorem transforms_of_separated (h : Separated (isProjection isTruthy) ops) (hkept : DataKept isTruthy isBinary ops) :
    Transforms isTruthy isBinary ops := by
  intro env o stateStore source traceID traceState
  obtain ⟨s, projections, hs, htoList, hsource⟩ := sweep_projections h
  unfold Outbox.publishInternal
  cases hc : o.outboxStores.lookup stateStore with
  | none => trivial
  | some c =>
    simp only [hs]
    split
    · next heq =>
      split at heq <;> cases heq
    · trivial
    · next result sent heq =>
      split at heq
      · cases heq
      · next markers sent' hsets =>
        cases heq
        rw [htoList] at hsets
        obtain ⟨new, msgs, hnew, hmsgs, hlen, hmarkers, hsent⟩ := publishSets_ok hsets
        subst hnew hmsgs
        refine ⟨c, markers, rfl, by rw [htoList], hlen, hmarkers, ?_⟩
        refine ((List.forall₂_and_left _ _).2 ⟨hkept, hsent⟩).imp ?_
        rintro sr req ⟨hsr, uid, hmessage⟩
        exact carries_of_message (hsource sr) hsr hmessage

/-- A store with an outbox. -/
def configured : Outbox := ⟨.singleton "store" ⟨"", "", "", false⟩, ""⟩

theorem lookup_configured : configured.outboxStores.lookup "store" = some ⟨"", "", "", false⟩ := rfl

/-- Where nothing fails, a call succeeds unless it panics. -/
theorem publishInternal_calm (isBinary : String → Bool) {s : Slice (Operation V)} {projections : Projections V}
    (hs : sweep (isProjection isTruthy) addProjection ops.length 0 (.ofList ops) ∅ = some (s, projections)) :
    ∃ markers sent, configured.publishInternal isTruthy (calm V isBinary) "store" ops "" "" "" =
        (.ok (s.toList ++ markers), sent) ∧
      (setsOf s.toList).Forall₂ (fun sr req => ∃ uid,
        messageOf (calm V isBinary) ⟨"", "", "", false⟩ ⟨"", "", "", ""⟩ projections uid sr = .ok req) sent := by
  obtain ⟨markers, sent, hsets⟩ := publishSets_calm isBinary ⟨"", "", "", false⟩ ⟨"", "", "", ""⟩ projections
    s.toList [] []
  obtain ⟨new, msgs, -, hmsgs, -, -, hsent⟩ := publishSets_ok hsets
  refine ⟨markers, sent, ?_, hmsgs ▸ hsent⟩
  unfold Outbox.publishInternal
  have hname : configured.namespaceName = "" := rfl
  simp only [lookup_configured, hs, hname, hsets]

theorem separated_of_transforms (h : Transforms isTruthy isBinary ops) : Separated (isProjection isTruthy) ops := by
  refine Classical.byContradiction fun hnot => ?_
  have hcall := h (calm V isBinary) configured "store" "" "" ""
  rcases sweep_of_not_separated (f := addProjection) hnot ∅ with hnone | ⟨s, projections, hs, op, hop, hproj⟩
  · unfold Outbox.publishInternal at hcall
    simp only [lookup_configured, hnone] at hcall
  · obtain ⟨markers, sent, heq, -⟩ := publishInternal_calm isBinary hs
    rw [heq] at hcall
    obtain ⟨c, markers', -, hresult, -, hmarkers, -⟩ := hcall
    have hmem : op ∈ stored isTruthy ops ++ markers' := hresult ▸ mem_append_left _ hop
    rcases mem_append.1 hmem with hmem | hmem
    · have := (mem_filter.1 hmem).2
      simp [hproj] at this
    · obtain ⟨uid, rfl⟩ := hmarkers op hmem
      cases hproj

theorem dataKept_of_transforms (h : Transforms isTruthy isBinary ops) : DataKept isTruthy isBinary ops := by
  intro sr hsr hbinary hmem
  obtain ⟨s, projections, hs, htoList, hsource⟩ := sweep_projections (separated_of_transforms h)
  obtain ⟨markers, sent, heq, hmessages⟩ := publishInternal_calm isBinary hs
  have hcall := h (calm V isBinary) configured "store" "" "" ""
  rw [heq] at hcall
  obtain ⟨c, -, -, -, -, -, hcarries⟩ := hcall
  rw [htoList] at hmessages
  obtain ⟨⟨i, hi⟩, rfl⟩ := mem_iff_get.1 hsr
  have hi' : i < sent.length := hcarries.length_eq ▸ hi
  obtain ⟨-, -, ceData, -, hcontent⟩ := hcarries.get hi hi'
  obtain ⟨uid, hmessage⟩ := hmessages.get hi hi'
  obtain ⟨-, -, -, ce, -, -, hreq⟩ := messageOf_ok hmessage
  -- the entry of the metadata is a text, and the content is not
  obtain ⟨v, hv⟩ := lookup_overlay_base64 ce hmem
  rw [hreq, fieldOf, if_pos hbinary] at hcontent
  cases hv.symm.trans hcontent

/-- The outbox does what it is for exactly on the transactions whose projections are separated, and in which no metadata
takes the place of an event's data. -/
theorem outbox_transforms_iff (isTruthy isBinary : String → Bool) (ops : List (Operation V)) :
    Transforms isTruthy isBinary ops ↔ Separated (isProjection isTruthy) ops ∧ DataKept isTruthy isBinary ops :=
  ⟨fun h => ⟨separated_of_transforms h, dataKept_of_transforms h⟩, fun h => transforms_of_separated h.1 h.2⟩

/-- A set of a text, and a projection for a key. -/
def setText (key value : String) : Operation Empty := .set { key := key, value := .text value }

def projection (key value : String) : Operation Empty :=
  .set { key := key, value := .text value, metadata := .singleton "outbox.projection" "true" }

def isTrue (s : String) : Bool := s = "true"

def noBinary (_ : String) : Bool := false

/-- A projection before its set, and another set behind it. -/
theorem outbox_transforms_iff_order :
    Transforms isTrue noBinary [projection "order" "public", setText "order" "private", setText "stock" "3"] :=
  (outbox_transforms_iff isTrue noBinary _).2 ⟨⟨by decide, by decide⟩, fun _ _ h => nomatch h⟩

/-- Of two projections side by side the second is stored, and one at the end behind an earlier one is a panic. -/
theorem projections_side_by_side :
    (configured.publishInternal isTrue (calm Empty noBinary) "store"
        [projection "a" "1", projection "b" "2", setText "a" "3", setText "b" "4"] "" "" "").1 =
      .ok ([projection "b" "2", setText "a" "3", setText "b" "4"] ++ replicate 3 (.set (transaction ""))) ∧
    (configured.publishInternal isTrue (calm Empty noBinary) "store"
        [projection "a" "1", setText "a" "3", projection "b" "2"] "" "" "").1 = .panicked :=
  ⟨rfl, rfl⟩

end Whole

end Dapr.PubSub
