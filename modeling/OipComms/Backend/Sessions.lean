import OipComms.Backend.Frames
import OipComms.Backend.System

/-!
# Node ids and sessions

A node id is good in the session it was resolved in: in the next one the index of its namespace may
be another. A session that is found dead by a read or a write takes the node ids with it; one that is
found dead by its state does not, and the next client reads with the old ones.
-/

namespace OipComms.Backend

open Run Sweep

variable {V : Type}

/-- The initialised tags of a group have node ids of the session of its client. -/
def TagGroup.Bound (g : TagGroup V) : Prop :=
  ∀ client, g.client = some client → ∀ (tagPath : CStr) (tag : OpcUaTag),
    g.opcUaTags[tagPath]? = some tag → tag.initialized = true →
      ∃ text, tag.nodeId = some { session := client, text := text }

/-- Bound, with only good reads and writes so far. -/
structure Visit.Own (v : Visit V) : Prop where
  bound : v.group.Bound
  calls : ∀ c ∈ v.calls, c.ownSession = true

/-- What leaves the OPC UA part keeps the nodes to their own session. -/
theorem Visit.Own.apart {v v' : Visit V} (h : v.Own) (hapart : v.Apart v') : v'.Own := by
  refine ⟨?_, fun c hc => (hapart.calls c hc).elim (h.calls c) id⟩
  intro client hclient tagPath tag hget
  rw [hapart.group.client] at hclient
  rw [hapart.group.opcUaTags] at hget
  exact h.bound client hclient tagPath tag hget

/-! ## OPC UA -/

/-- The node a read or a write names is of the client it goes to. -/
theorem NodeOf.own {client : Nat} {tag : OpcUaTag} {node : Option NodeId}
    (h : NodeOf client tag node)
    (hbound : tag.initialized = true → ∃ text, tag.nodeId = some { session := client, text := text }) :
    ∃ text, node = some { session := client, text := text } := by
  rcases h with ⟨hinitialized, rfl⟩ | hresolved
  · exact hbound hinitialized
  · exact hresolved

section
variable {v : Visit V}

/-- Without a client nothing is bound. -/
theorem Visit.Own.ofNone {v' : Visit V} (h : v.Own) (hclient : v'.group.client = none)
    (hcalls : ∀ c ∈ v'.calls, c ∈ v.calls ∨ c.ownSession = true) : v'.Own := by
  refine ⟨fun client hsome => ?_, fun c hc => (hcalls c hc).elim (h.calls c) id⟩
  rw [hclient] at hsome
  cases hsome

/-- A session found dead leaves no node of it in use. -/
theorem Visit.Own.invalidateOpcUaSession (h : v.Own) : v.invalidateOpcUaSession.Own := by
  refine h.ofNone rfl fun c hc => ?_
  exact (List.mem_append.mp hc).imp id (ownSession_releases _ c)

/-- Making a client makes no call with a node. -/
theorem initOpcUaClient_calls (env : UaEnv) (v : Visit V) :
    ∀ c ∈ (v.initOpcUaClient env).2.calls, c ∈ v.calls ∨ c.ownSession = true := by
  intro c hc
  have hmade : ∀ calls : List (LibCall V), (∀ c ∈ calls, c.ownSession = true) →
      c ∈ v.calls ++ releases (v.group.client.toList.map .uaClient) ++ calls →
        c ∈ v.calls ∨ c.ownSession = true := by
    intro calls hcalls hc
    rcases List.mem_append.mp hc with hc | hc
    · exact (List.mem_append.mp hc).imp id (ownSession_releases _ c)
    · exact .inr (hcalls c hc)
  unfold Visit.initOpcUaClient at hc
  simp only at hc
  split at hc
  · exact hmade _ (ownSession_acquire _) hc
  · rcases List.mem_append.mp hc with hc | hc
    · exact hmade _ (ownSession_acquire _) hc
    · rw [List.mem_singleton.mp hc]
      exact .inr rfl

/-- The tags of a group whose client is connected are read with node ids of its session. -/
theorem Visit.Own.pollOpcUaTags (h : v.Own) {client : Nat} (hclient : v.group.client = some client)
    (env : UaEnv) : (v.pollOpcUaTags env client).Own := by
  have hbound := h.bound client hclient
  have hswept : ((v.withGroup { v.group with
      opcUaTags := (sweep (pollOpcUaTag (V := V) env client) v.group.opcUaTags).entries }).absorb
      (sweep (pollOpcUaTag env client) v.group.opcUaTags).outs).Own := by
    constructor
    · intro client' hclient' tagPath tag hget hinitialized
      obtain rfl := Option.some.inj (hclient.symm.trans hclient')
      obtain ⟨tag', hget', rfl | rfl⟩ := getElem?_sweep _ hget
      · exact hbound tagPath _ hget' hinitialized
      · exact ((pollOpcUaTag_turn (V := V) env client tagPath tag').node hinitialized).own
          (hbound tagPath tag' hget')
    · intro c hc
      rcases List.mem_append.mp hc with hc | hc
      · exact h.calls c hc
      · obtain ⟨out, hout, hc⟩ := List.mem_flatMap.mp hc
        obtain ⟨tagPath, tag, hget, rfl⟩ := mem_outs _ hout
        obtain ⟨node, rfl, hnode⟩ := (pollOpcUaTag_turn env client tagPath tag).calls c hc
        obtain ⟨text, rfl⟩ := hnode.own (hbound tagPath tag hget)
        exact decide_eq_true rfl
  unfold Visit.pollOpcUaTags
  simp only
  split
  · exact hswept.invalidateOpcUaSession
  · exact hswept

/-- A poll keeps what is bound, if it makes no new client over tags that are still initialised. -/
theorem Visit.Own.processOpcUaTagGroup (h : v.Own) (env : UaEnv)
    (hfresh : v.group.opcUaClientConnected env.stateGood = false → env.connect = .good →
      ∀ (tagPath : CStr) (tag : OpcUaTag),
        v.group.opcUaTags[tagPath]? = some tag → tag.initialized = false) :
    (v.processOpcUaTagGroup env).Own := by
  rcases processOpcUaTagGroup_cases env v with ⟨client, hclient, -, hpoll⟩ | ⟨hconnected, hpoll⟩
  · rw [hpoll]
    exact h.pollOpcUaTags hclient env
  · have hgroup := v.initOpcUaClient_group env
    rw [hpoll]
    by_cases hconnect : env.connect = .good
    · rw [if_pos hconnect] at hgroup ⊢
      have hown : (v.initOpcUaClient env).2.Own := by
        refine ⟨?_, fun c hc => (initOpcUaClient_calls env v c hc).elim (h.calls c) id⟩
        rw [hgroup]
        intro client hclient tagPath tag hget hinitialized
        rw [hfresh hconnected hconnect tagPath tag hget] at hinitialized
        cases hinitialized
      refine hown.pollOpcUaTags ?_ env
      rw [hgroup]
    · rw [if_neg hconnect] at hgroup ⊢
      refine h.ofNone ?_ (initOpcUaClient_calls env v)
      rw [hgroup]

/-- A tag that keeps its flag and its node id. -/
theorem Visit.Own.insert (h : v.Own) {tagPath : CStr} {tag : OpcUaTag}
    (htag : tag.initialized = true → ∃ tag', v.group.opcUaTags[tagPath]? = some tag' ∧
      tag'.initialized = true ∧ tag.nodeId = tag'.nodeId) :
    (v.withGroup { v.group with opcUaTags := v.group.opcUaTags.insert tagPath tag }).Own := by
  refine ⟨?_, h.calls⟩
  intro client hclient tagPath' tag' hget hinitialized
  rcases (getElem?_insert_iff _ _ _ _ _).mp hget with ⟨rfl, rfl⟩ | ⟨-, hget⟩
  · obtain ⟨tag, htag, hinitialized, hnode⟩ := htag hinitialized
    rw [hnode]
    exact h.bound client hclient _ tag htag hinitialized
  · exact h.bound client hclient tagPath' tag' hget hinitialized

/-- A tag that is looked up and initialised is there. -/
theorem getElem?_of_initialized {tags : Std.ExtTreeMap CStr OpcUaTag} {tagPath : CStr}
    (h : OpcUaTag.initialized ((tags[tagPath]?).getD {}) = true) :
    tags[tagPath]? = some (Option.getD (α := OpcUaTag) tags[tagPath]? {}) := by
  cases hget : tags[tagPath]? with
  | none =>
    rw [hget] at h
    cases h
  | some tag => rfl

/-- A write goes to a node of the session it is made in. -/
theorem Visit.Own.opcWrite (h : v.Own) (env : UaWriteEnv) (tagPath : CStr) :
    (v.opcWrite env tagPath).Own := by
  rcases opcWrite_cases env v tagPath with hwrite | ⟨client, hclient, hinitialized, v', rfl, hwrite⟩
  · rw [hwrite]
    exact h
  · obtain ⟨text, hnode⟩ := h.bound client hclient tagPath _
      (getElem?_of_initialized hinitialized) hinitialized
    have hmade : (v.makes [.uaWrite client ((v.group.opcUaTags[tagPath]?).getD {}).nodeId]).Own := by
      refine ⟨h.bound, fun c hc => ?_⟩
      rcases List.mem_append.mp hc with hc | hc
      · exact h.calls c hc
      · rw [List.mem_singleton.mp hc, hnode]
        exact decide_eq_true rfl
    rcases hwrite with hwrite | hwrite
    · rw [hwrite]
      exact hmade
    · rw [hwrite]
      exact hmade.invalidateOpcUaSession

/-- A write to a tag goes to a node of the session it is made in. -/
theorem Visit.Own.opcTagSet (h : v.Own) (env : UaWriteEnv) (tagPath : CStr)
    (ty : Comms.TagType) : (v.opcTagSet env tagPath ty).Own := by
  unfold Visit.opcTagSet
  split
  · simp only
    split
    · rename_i hinitialized
      refine Visit.Own.opcWrite (h.insert ?_) env tagPath
      exact fun _ => ⟨_, getElem?_of_initialized hinitialized, hinitialized, rfl⟩
    · rename_i hno
      exact h.insert fun hinitialized => absurd hinitialized hno
  · exact h

end

/-! ## All that can happen -/

/-- A poll that makes a new client. -/
def TagGroup.reconnects (g : TagGroup V) (env : UaEnv) : Bool :=
  g.protocol = .opcUa && !g.hasError && !g.opcUaClientConnected env.stateGood &&
    env.connect = .good

/-- What happens to a group is not a poll that makes a new client over a tag that is still
initialised. -/
def TagGroup.reconnectsFresh (g : TagGroup V) : GroupOp V → Bool
  | .poll env => !g.reconnects env.ua || g.opcUaTags.toList.all fun x => !x.2.initialized
  | _ => true

section
variable {v : Visit V}

/-- A poll that reconnects afresh reads nodes of its own session. -/
theorem Visit.Own.processTagGroup (hprotocol : v.group.protocol = .opcUa) (h : v.Own) (env : Env V)
    (hfresh : v.group.reconnectsFresh (.poll env) = true) : (v.processTagGroup env).Own := by
  unfold Visit.processTagGroup
  split
  · exact h
  · rename_i herror
    simp only [hprotocol]
    refine h.processOpcUaTagGroup env.ua fun hconnected hconnect tagPath tag hget => ?_
    have hreconnects : v.group.reconnects env.ua = true := by
      simp only [TagGroup.reconnects, hprotocol, herror, hconnected, hconnect, Bool.not_false,
        decide_true, Bool.and_self]
    rw [TagGroup.reconnectsFresh, hreconnects] at hfresh
    have hall := List.all_eq_true.mp hfresh (tagPath, tag)
      (Std.ExtTreeMap.mem_toList_iff_getElem?_eq_some.mpr hget)
    exact Bool.not_eq_true' _ |>.mp hall

theorem Visit.Own.registerTag (hprotocol : v.group.protocol = .opcUa) (h : v.Own) (tagName : CStr)
    (ty : Comms.TagType) : (v.registerTag tagName ty).2.Own := by
  unfold Visit.registerTag
  rw [hprotocol]
  exact h.insert fun hinitialized => nomatch hinitialized

/-- A write to a group keeps the nodes to their own session. -/
theorem Visit.Own.processWrite [Rtde.GodotVariant V] (hprotocol : v.group.protocol = .opcUa)
    (h : v.Own) (env : WriteEnv) (w : Comms.WriteRequest V) : (v.processWrite env w).Own := by
  unfold Visit.processWrite
  rw [hprotocol]
  cases instructionType w.instruction with
  | none => exact h
  | some ty => exact h.opcTagSet env.ua w.tagName ty

theorem Visit.Own.cleanup (hprotocol : v.group.protocol = .opcUa) (h : v.Own) : v.cleanup.Own := by
  unfold Visit.cleanup Visit.release
  simp only [hprotocol]
  refine h.ofNone rfl fun c hc => ?_
  exact (List.mem_append.mp hc).imp id (ownSession_releases _ c)

/-- What happens to a group keeps the nodes to their own session, if it reconnects afresh. -/
theorem Visit.Own.apply [Rtde.GodotVariant V] (h : v.Own) (op : GroupOp V)
    (hfresh : v.group.reconnectsFresh op = true) : (v.apply op).Own := by
  by_cases hprotocol : v.group.protocol = .opcUa
  · cases op with
    | registerTag tagName ty =>
      show (if _ then v else _).Own
      split
      · exact h
      · exact h.registerTag hprotocol tagName ty
    | poll env => exact h.processTagGroup hprotocol env hfresh
    | write env w => exact h.processWrite hprotocol env w
    | read tagName ty => exact h.apart (v.read_apart tagName ty)
    | message topic payload => exact h.apart (v.message_apart topic payload)
    | setSoftPlcProgram source => exact h.apart (v.setSoftPlcProgram_apart source)
    | setSoftPlcWatchEnabled enabled => exact h.apart (v.setSoftPlcWatchEnabled_apart enabled)
    | frame delta startupTimer => exact h.apart (v.frame_apart delta startupTimer)
    | cleanup => exact h.cleanup hprotocol
  · exact h.apart (v.apply_apart hprotocol op)

end

/-! ## Runs -/

/-- Every read and every write so far used a node id of its own session. -/
def OwnSessions (m : Machine V) : Prop := ∀ c ∈ m.comms.calls, c.ownSession = true

/-- No poll of the step makes a new client over tags that are still initialised. -/
def ReconnectsFresh (m : Machine V) (l : Label V) : Prop :=
  ∀ x ∈ m.changed l, x.2.1.reconnectsFresh x.2.2 = true

instance (m : Machine V) (l : Label V) : Decidable (ReconnectsFresh m l) :=
  inferInstanceAs (Decidable (∀ x ∈ m.changed l, x.2.1.reconnectsFresh x.2.2 = true))

/-- Every step that reconnects afresh keeps the nodes to their own sessions. -/
theorem own_step [Rtde.GodotVariant V] {m : Machine V} {l : Label V}
    (hbound : m.comms.Every TagGroup.Bound) (hcalls : OwnSessions m) (hfresh : ReconnectsFresh m l) :
    (m.step l).comms.Every TagGroup.Bound ∧ OwnSessions (m.step l) := by
  have hnone : ∀ g : TagGroup V, g.client = none → g.Bound := by
    intro g hclient client hsome
    rw [hclient] at hsome
    cases hsome
  have hop : ∀ x ∈ m.changed l, x.2.1.Bound → (x.2.1.after m.comms.next x.2.2).Own := by
    intro x hx hg
    have hown : Visit.Own { group := x.2.1, next := m.comms.next } :=
      ⟨hg, fun c hc => absurd hc List.not_mem_nil⟩
    exact hown.apply x.2.2 (hfresh x hx)
  constructor
  · exact Machine.every_step hbound (hnone {} rfl) (fun _ _ _ _ _ => hnone _ rfl)
      fun x hx hg => (hop x hx hg).bound
  · intro c hc
    rcases Machine.step_calls hc with hold | ⟨x, hx, hnew⟩
    · exact hcalls c hold
    · exact (hop x hx (m.changed_every hbound (hnone {} rfl) x hx)).calls c hnew

/-- In a run that makes no new client over tags that are still initialised, a node id is used only in
the session it was resolved in. -/
theorem own_sessions_if_reconnects_fresh [Rtde.GodotVariant V] (ops : List (Label V))
    (h : Meets Machine.step ReconnectsFresh ({} : Machine V) ops) :
    Along Machine.step OwnSessions ({} : Machine V) ops := by
  have hinit : (({} : Machine V).comms.Every TagGroup.Bound) ∧ OwnSessions ({} : Machine V) :=
    ⟨fun name g hget => (nomatch Std.ExtTreeMap.getElem?_empty.symm.trans hget),
      fun c hc => absurd hc List.not_mem_nil⟩
  have hstep := along_of_meets Machine.step
    (J := fun m : Machine V => m.comms.Every TagGroup.Bound ∧ OwnSessions m)
    (fun m l hm hfresh => own_step hm.1 hm.2 hfresh) hinit h
  exact hstep.mono Machine.step fun m hm => hm.2

/-- A session that a read finds dead, and the next poll. -/
def recovered : List (Label Bool) :=
  started "g".toList .opcUa "nsu=u;s=v".toList ++
    frameAndPoll 100000 { ua := { read := fun _ => (.badSessionClosed, .other) } } ++
    frameAndPoll 200000 {}

/-- A session that is found dead and made anew. -/
theorem own_sessions_recovered : Along Machine.step OwnSessions ({} : Machine Bool) recovered :=
  own_sessions_if_reconnects_fresh recovered (by decide)

/-- A session whose client is found not to be activated, and the poll that finds it so. The namespace
is the third of the server now, and was the second. -/
def restarted : List (Label Bool) :=
  started "g".toList .opcUa "nsu=u;s=v".toList ++
    frameAndPoll 100000 { ua := { namespaceIndex := fun _ => some 2 } } ++
    frameAndPoll 200000 { ua := { stateGood := false, namespaceIndex := fun _ => some 3 } }

/-- A restart that leaves nodes of the session before. -/
theorem stale_after_restart : ¬ Along Machine.step OwnSessions ({} : Machine Bool) restarted := by
  intro h
  have hlast : (run Machine.step ({} : Machine Bool) restarted).comms.calls.all
      LibCall.ownSession = true := List.all_eq_true.mpr h.last
  exact absurd hlast (by decide)

end OipComms.Backend
