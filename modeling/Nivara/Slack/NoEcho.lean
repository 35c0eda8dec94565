import Nivara.Sla.Chronicle
import Nivara.Tickets.Outbox

/-! The API as a whole, as far as the conversations are concerned: any number of transactions beside one
another, and among them those of the handler of the `inbound.event` jobs. Every reply that should leave is
scheduled, and what comes back from Slack by itself does not come in again. -/
namespace Nivara.Slack
open Transactions Tickets Sla

/-- The payload of an `inbound.event` job; `event` is none if it is no object. -/
structure InboundEvent where
  tenantId : Uuid
  botUserId : String
  event : Option Event

/-- The event is from the bot user of the installation, or from an integration, or is no plain utterance. -/
def InboundEvent.Echoes (job : InboundEvent) : Prop :=
  ∃ event, job.event = some event ∧
    (event "user" = some (.text job.botUserId) ∨ (event "bot_id").isSome ∨ (event "subtype").isSome)

/-- The transactions of `SlackIngestionService.handle`, with what they are given by those before them. -/
inductive IngestStage where
  | contactFor
  | ticketOnThread (contactId : Uuid)
  | appendTo (contactId ticketId : Uuid)
  | openThread (contactId : Uuid)
  deriving DecidableEq, Repr

def IngestStage.armed : IngestStage → Actor
  | .contactFor => .system
  | .ticketOnThread contactId => .contact contactId
  | .appendTo contactId _ => .contact contactId
  | .openThread contactId => .contact contactId

def IngestStage.script (rank : Uuid → Nat) (tenantId : Uuid) (message : SlackUtterance) (at' : Int) : IngestStage → Tx Unit
  | .contactFor => do let _ ← Slack.contactFor message.slackUserId
  | .ticketOnThread _ => do let _ ← Slack.ticketOnThread rank message.channelId message.threadTs
  | .appendTo contactId ticketId => do let _ ← reply ⟨tenantId, contactId⟩ ticketId message.text .slack at'
  | .openThread contactId => do let _ ← Slack.openThread ⟨tenantId, contactId⟩ message at'

/-- What is asked of the database in one transaction: by a request, by the sweep for breaches, or by the handler
of a job, which asks for nothing if it ignores the event. -/
inductive Call where
  | request (tenantId : Uuid) (actor : Actor) (deed : Deed) (at' : Int)
  | latch (tenantId : Uuid) (targets : Targets) (now at' : Int)
  | ingest (job : InboundEvent) (stage : IngestStage) (at' : Int)

def Call.tenantId : Call → Uuid
  | .request tenantId _ _ _ => tenantId
  | .latch tenantId _ _ _ => tenantId
  | .ingest job _ _ => job.tenantId

def Call.armed : Call → Actor
  | .request _ actor deed _ => deed.armed actor
  | .latch _ _ _ _ => .system
  | .ingest _ stage _ => stage.armed

def Call.script (rank : Uuid → Nat) : Call → Tx Unit
  | .request tenantId _ deed at' => deed.script tenantId at'
  | .latch tenantId targets now at' => do let _ ← latchTenant tenantId targets now at'
  | .ingest job stage at' =>
    match readSlackMessage job.event job.botUserId with
    | none => pure ()
    | some message => stage.script rank job.tenantId message at'

def apiService (ι : Type) (rank : Uuid → Nat) : Service deskLanguage Failure Unit TenantContext (Desk ι) Call where
  context d call := ⟨call.tenantId, call.armed, d.clock⟩
  script := Call.script rank

/-- `installations` finds the tenant and the bot user of a workspace; `inbox` lists the committed `inbound.event` jobs. -/
structure Api (ι : Type) where
  installations : String → Option (Uuid × String)
  inbox : List InboundEvent
  server : Server deskLanguage Failure Unit ι TenantContext (Desk ι) Cursor Call

/-- What happens to the API. `receive` is an event of a workspace, whose `event_id` is `fresh` or claimed before;
`handle` begins a transaction of the handler of a job, which may come to its transactions at any time. -/
inductive ApiAction (ι : Type) where
  | install (teamId : String) (installation : Option (Uuid × String))
  | receive (teamId : String) (event : Option Event) (fresh : Bool)
  | handle (i : ι) (n : Nat) (stage : IngestStage) (at' : Int)
  | request (i : ι) (tenantId : Uuid) (actor : Actor) (deed : Deed) (at' : Int)
  | latch (i : ι) (tenantId : Uuid) (targets : Targets) (now at' : Int)
  | advance (i : ι)
  | abort (i : ι)
  | world (w : Tickets.Event)

namespace Api
variable {ι : Type} [DecidableEq ι]

def initial : Api ι := ⟨fun _ => none, [], Server.initial Desk.empty⟩

def desk (s : Api ι) : Desk ι := s.server.db

def move (s : Api ι) : ApiAction ι → Option (Move ι Call Tickets.Event)
  | .install _ _ => none
  | .receive _ _ _ => none
  | .handle i n stage at' => (s.inbox[n]?).map fun job => .begin i (.ingest job stage at')
  | .request i tenantId actor deed at' => some (.begin i (.request tenantId actor deed at'))
  | .latch i tenantId targets now at' => some (.begin i (.latch tenantId targets now at'))
  | .advance i => some (.advance i)
  | .abort i => some (.abort i)
  | .world w => some (.world w)

def receive (s : Api ι) (teamId : String) (event : Option Event) (fresh : Bool) : Api ι :=
  match s.installations teamId with
  | none => s
  | some (tenantId, botUserId) => if fresh then { s with inbox := s.inbox ++ [⟨tenantId, botUserId, event⟩] } else s

def step (rank : Uuid → Nat) (s : Api ι) : ApiAction ι → Option (Api ι)
  | .install teamId installation => some { s with installations := Function.update s.installations teamId installation }
  | .receive teamId event fresh => some (s.receive teamId event fresh)
  | a => (s.move a).bind fun m => (s.server.step (deskEngine ι) (apiService ι rank) Desk.world m).map fun server =>
      { s with server := server }

end Api

/-- An echo is ignored. -/
theorem readSlackMessage_of_echoes {job : InboundEvent} (h : job.Echoes) : readSlackMessage job.event job.botUserId = none := by
  obtain ⟨event,hevent,hwhy⟩ := h
  simp only [readSlackMessage, hevent, Option.bind_eq_bind, Option.bind_some]
  split
  · rfl
  · split
    · rfl
    · rename_i hsubtype
      split
      · rfl
      · rename_i hbot
        have huser : event "user" = some (.text job.botUserId) := by
          rcases hwhy with huser | hwhy | hwhy
          · exact huser
          · exact absurd hwhy hbot
          · exact absurd hwhy hsubtype
        rw [huser]
        by_cases hempty : job.botUserId = ""
        · simp [asText, hempty]
        · simp [asText, hempty]

section Quiet
variable {t : Int}

private theorem edits_quiet : Edits t Stmt.Quiet := ⟨fun _ => trivial,fun _ _ _ => trivial⟩

private theorem quiet_settleAll (list : List DwellTimer) : (settleAll t list).Only Stmt.Quiet := by
  induction list with
  | nil => trivial
  | cons timer rest ih =>
    refine Script.Only.bind ?_ fun _ => ih.bind fun _ => trivial
    unfold settle
    split
    · trivial
    · refine (Script.only_query trivial).bind fun rows => ?_
      split
      · trivial
      · exact (edits_quiet (t := t)).findMany

private theorem quiet_latchTenant {tenantId : Uuid} {targets : Targets} {now : Int} :
    (latchTenant tenantId targets now t).Only Stmt.Quiet := by
  have hrecord (breaches : List Breach) : (recordBreaches t breaches).Only Stmt.Quiet := by
    induction breaches with
    | nil => trivial
    | cons b rest ih => exact (Script.only_query trivial).bind fun _ => ih
  exact (Script.only_query trivial).bind fun _ => (hrecord _).bind fun _ => trivial

private theorem quiet_createIn {tenantId : Uuid} {input : CreateTicketInput} : (createIn tenantId input t).Only Stmt.Quiet :=
  (Script.only_query trivial).bind fun _ => (Script.only_query trivial).bind fun _ => trivial

end Quiet

section Outline
variable {ι : Type} [DecidableEq ι] {rank : Uuid → Nat} {i : ι} {ctx : TenantContext}

def Call.Ends (i : ι) (d : Desk ι) : Call → Prop
  | .request _ _ (.note _ _) _ => Silent i d
  | .ingest job _ _ => job.Echoes → Untouched i d
  | _ => True

def apiRegime (ι : Type) [DecidableEq ι] : Regime (deskEngine ι) Unit Call Tickets.Event Desk.world :=
  outboxRegime ι Unit fun call i d => call.Ends i d

private theorem safe_request {tenantId : Uuid} {actor : Actor} {deed : Deed} {at' : Int} (harmed : ctx.actor = deed.armed actor) :
    (apiRegime ι).Safe i (.request tenantId actor deed at') ctx (deed.script tenantId at') (Silent i) := by
  have hquiet : (∀ d, Silent i d → Call.Ends i d (.request tenantId actor deed at')) → (deed.script tenantId at').Only Stmt.Quiet →
      (apiRegime ι).Safe i (.request tenantId actor deed at') ctx (deed.script tenantId at') (Silent i) := by
    intro hends honly
    exact safe_silent hends honly
  have hcontact : ctx.actor.isContact = true → (∀ d, Call.Ends i d (.request tenantId actor deed at')) →
      (apiRegime ι).Safe i (.request tenantId actor deed at') ctx (deed.script tenantId at') (Silent i) := fun hctx hends =>
    (safe_spoken hctx (fun d _ => hends d) _).mono fun _ _ h => h.spoken
  cases deed with
  | contact => exact hquiet (fun _ _ => trivial) ((Script.only_query trivial).bind fun _ => trivial)
  | create input => exact hquiet (fun _ _ => trivial) (quiet_createIn.bind fun _ => trivial)
  | transition permissions id to' => exact hquiet (fun _ _ => trivial) (edits_quiet.transitionIn.bind fun _ => trivial)
  | setPriority id priority => exact hquiet (fun _ _ => trivial) (edits_quiet.setPriority.bind fun _ => trivial)
  | setAssignee id assigneeId => exact hquiet (fun _ _ => trivial) (edits_quiet.setAssignee.bind fun _ => trivial)
  | post id body =>
    cases hctx : ctx.actor.isContact with
    | true => exact hcontact hctx fun _ => trivial
    | false =>
      refine Regime.Leads.safe (Q := fun _ => Balanced i) ?_ fun _ d hd h _ => ⟨hd.commit h,h,trivial⟩
      exact Regime.leads_bind (balanced_postIn hctx) fun _ => Regime.leads_done fun _ _ h => h
  | note id body => exact hquiet (fun _ h => h) ((Script.only_query trivial).bind fun _ => trivial)
  | reply contactId id body source => exact hcontact (by rw [harmed]; rfl) fun _ => trivial
  | openThread contactId message => exact hcontact (by rw [harmed]; rfl) fun _ => trivial
  | settle => exact hquiet (fun _ _ => trivial) ((quiet_settleAll _).bind fun _ => trivial)

private theorem safe_ingest {job : InboundEvent} {stage : IngestStage} {at' : Int} (harmed : ctx.actor = stage.armed) :
    (apiRegime ι).Safe i (.ingest job stage at') ctx (Call.script rank (.ingest job stage at')) (Untouched i) := by
  cases hread : readSlackMessage job.event job.botUserId with
  | none =>
    simp only [Call.script, hread]
    exact fun d hd h _ => ⟨hd.commit h.2.spoken.balanced,h.2.spoken.balanced,fun _ => h⟩
  | some message =>
    -- it is no echo, so nothing more is asked of it
    have hends : ∀ d : Desk ι, Call.Ends i d (.ingest job stage at') := fun d hecho => by
      cases hread.symm.trans (readSlackMessage_of_echoes hecho)
    have hcontact : ctx.actor.isContact = true → (apiRegime ι).Safe i (.ingest job stage at') ctx
        (stage.script rank job.tenantId message at') (Untouched i) := fun hctx =>
      (safe_spoken hctx (fun d _ => hends d) _).mono fun _ _ h => h.2.spoken
    simp only [Call.script, hread]
    cases stage with
    | contactFor =>
      refine Regime.Safe.mono (safe_silent (fun d _ => hends d) ?_) fun _ _ h => h.2
      exact (Script.only_query trivial).bind fun _ => trivial
    | ticketOnThread contactId => exact hcontact (by rw [harmed]; rfl)
    | appendTo contactId ticketId => exact hcontact (by rw [harmed]; rfl)
    | openThread contactId => exact hcontact (by rw [harmed]; rfl)

private theorem safe_call (i : ι) (d : Desk ι) (call : Call) :
    (apiRegime ι).Safe i call ((apiService ι rank).context d call) ((apiService ι rank).script call) (Untouched i) := by
  cases call with
  | request tenantId actor deed at' => exact (safe_request rfl).mono fun _ _ h => h.2
  | latch tenantId targets now at' =>
    refine Regime.Safe.mono (safe_silent (fun _ _ => trivial) ?_) fun _ _ h => h.2
    exact quiet_latchTenant.bind fun _ => trivial
  | ingest job stage at' => exact safe_ingest rfl

end Outline

section Runs
variable {ι : Type} [DecidableEq ι] {rank : Uuid → Nat} {s s' : Api ι} {a : ApiAction ι} {acts : List (ApiAction ι)}

structure Api.Adds (s : Api ι) (a : ApiAction ι) (s' : Api ι) : Prop where
  /-- Only a commit changes what is committed. -/
  commits : s.desk.Unchanged s'.desk ∨ ∃ i, a = .advance i ∧ s'.desk = s.desk.commit i
  /-- A Message is committed with the deliveries and the jobs that its own transaction has written. -/
  together : ∀ n m, s.desk.messages.committed n = none → s'.desk.messages.committed n = some m → ∃ i, a = .advance i ∧
    s.desk.messages.own i n = some m ∧ ∀ k row, row.messageId = n →
      (s'.desk.deliveries.committed k = some row → s.desk.deliveries.own i k = some row) ∧
      (s'.desk.jobs.committed k = some row → s.desk.jobs.own i k = some row)
  /-- A Note has neither. -/
  notes : ∀ i x tenantId actor id body at', a = .advance i → s.server.sessions i = some x →
    x.req = .request tenantId actor (.note id body) at' →
    s'.desk.deliveries.committed = s.desk.deliveries.committed ∧ s'.desk.jobs.committed = s.desk.jobs.committed
  /-- The handler of an echo adds nothing. -/
  echoes : ∀ i x job stage at', a = .advance i → s.server.sessions i = some x → x.req = .ingest job stage at' → job.Echoes →
    s'.desk.tickets.committed = s.desk.tickets.committed ∧ s'.desk.messages.committed = s.desk.messages.committed ∧
    s'.desk.deliveries.committed = s.desk.deliveries.committed ∧ s'.desk.jobs.committed = s.desk.jobs.committed
  /-- An event adds at most its own job, and nothing else adds to these. -/
  inbox : (s'.inbox = s.inbox ∨ ∃ teamId event tenantId botUserId, a = .receive teamId event true ∧
    s.installations teamId = some (tenantId, botUserId) ∧ s'.inbox = s.inbox ++ [⟨tenantId, botUserId, event⟩]) ∧
    ∀ teamId event fresh, a = .receive teamId event fresh → s'.server = s.server

private theorem server_of_step (hs : s.step rank a = some s') : s'.server = s.server ∨ ∃ m, s.move a = some m ∧
    s.server.step (deskEngine ι) (apiService ι rank) Desk.world m = some s'.server := by
  have hmove : ((s.move a).bind fun m => (s.server.step (deskEngine ι) (apiService ι rank) Desk.world m).map fun server =>
      ({ s with server := server } : Api ι)) = some s' → ∃ m, s.move a = some m ∧
        s.server.step (deskEngine ι) (apiService ι rank) Desk.world m = some s'.server := by
    intro h
    obtain ⟨m,hm,h⟩ := Option.bind_eq_some_iff.mp h
    obtain ⟨server,hserver,rfl⟩ := Option.map_eq_some_iff.mp h
    exact ⟨m,hm,hserver⟩
  cases a with
  | install teamId installation =>
    cases hs
    exact .inl rfl
  | receive teamId event fresh =>
    cases hs
    left
    unfold Api.receive
    split
    · rfl
    · split <;> rfl
  | handle i n stage at' => exact .inr (hmove hs)
  | request i tenantId actor deed at' => exact .inr (hmove hs)
  | latch i tenantId targets now at' => exact .inr (hmove hs)
  | advance i => exact .inr (hmove hs)
  | abort i => exact .inr (hmove hs)
  | world w => exact .inr (hmove hs)

private theorem server_of_run (hr : Run (Api.step rank) Always Api.initial acts s) : ∃ moves,
    Run (Server.step (deskEngine ι) (apiService ι rank) Desk.world) Always (Server.initial Desk.empty) moves s.server := by
  refine hr.invariant (I := fun t => ∃ moves, Run (Server.step (deskEngine ι) (apiService ι rank) Desk.world) Always
    (Server.initial Desk.empty) moves t.server) ⟨[],.nil⟩ fun t a u ⟨moves,ht⟩ _ hs => ?_
  rcases server_of_step hs with hsame | ⟨m,_,hm⟩
  · rw [hsame]
    exact ⟨moves,ht⟩
  · exact ⟨moves ++ [m],ht.snoc trivial hm⟩

private theorem admits_any (t : Server deskLanguage Failure Unit ι TenantContext (Desk ι) Cursor Call) (m : Move ι Call Tickets.Event) :
    (apiRegime ι).terms.admits t m = true :=
  Terms.admits_of_all (T := (apiRegime ι).terms) (fun _ _ => rfl) (fun _ _ _ _ _ _ => rfl) (fun _ _ _ _ _ => rfl) t m

private theorem covered_of_api (hr : Run (Api.step rank) Always Api.initial acts s) : (apiRegime ι).Covered s.server := by
  obtain ⟨moves,hmoves⟩ := server_of_run hr
  refine Regime.covered_of_run (fun i d call _ => safe_call i d call) orderly_empty (fun i => ?_) (hmoves.mono fun t m _ => admits_any t m)
  exact ⟨fun _ => rfl,fun _ => rfl,fun _ => rfl,fun _ => rfl⟩

/-- A step leaves alone what is committed, or commits what is balanced. -/
private theorem commits_of_step (h : (apiRegime ι).Covered s.server) (hs : s.step rank a = some s') :
    s.desk.Unchanged s'.desk ∨ ∃ i x, a = .advance i ∧ s.server.sessions i = some x ∧ s'.desk = s.desk.commit i ∧
      Balanced i s.desk ∧ x.req.Ends i s.desk := by
  rcases server_of_step hs with hsame | ⟨m,hm,hserver⟩
  · left
    rw [Api.desk, Api.desk, hsame]
    exact .refl _
  · rcases committed_of_step hserver with ⟨_,hunchanged⟩ | ⟨i,x,b,rfl,hx,hscript,hl,hdb,_⟩
    · exact .inl hunchanged
    · right
      obtain ⟨hbalanced,hends⟩ := Regime.post_of_commit h (admits_any s.server (.advance i)) hx hscript hl
      refine ⟨i,x,?_,hx,hdb,hbalanced,hends⟩
      -- no other action is a move of this kind
      cases a with
      | advance j =>
        cases hm
        rfl
      | install teamId installation => cases hm
      | receive teamId event fresh => cases hm
      | handle j n stage at' =>
        obtain ⟨job,_,hm⟩ := Option.map_eq_some_iff.mp hm
        cases hm
      | request j tenantId actor deed at' => cases hm
      | latch j tenantId targets now at' => cases hm
      | abort j => cases hm
      | world w => cases hm

/-- A commit leaves a table alone in which the transaction has nothing. -/
private theorem committed_commit {R : Type} {t : Table ι R} {i : ι} (h : ∀ k, t.own i k = none) : (t.commit i).committed = t.committed :=
  funext fun k => Table.visible_of_no_own _ _ _ (h k)

private theorem inbox_of_step (hs : s.step rank a = some s') :
    (s'.inbox = s.inbox ∨ ∃ teamId event tenantId botUserId, a = .receive teamId event true ∧
      s.installations teamId = some (tenantId, botUserId) ∧ s'.inbox = s.inbox ++ [⟨tenantId, botUserId, event⟩]) ∧
    ∀ teamId event fresh, a = .receive teamId event fresh → s'.server = s.server := by
  have hmove : ((s.move a).bind fun m => (s.server.step (deskEngine ι) (apiService ι rank) Desk.world m).map fun server =>
      ({ s with server := server } : Api ι)) = some s' → s'.inbox = s.inbox := by
    intro h
    obtain ⟨m,_,h⟩ := Option.bind_eq_some_iff.mp h
    obtain ⟨server,_,rfl⟩ := Option.map_eq_some_iff.mp h
    rfl
  cases a with
  | install teamId installation =>
    cases hs
    exact ⟨.inl rfl,nofun⟩
  | receive teamId event fresh =>
    cases hs
    unfold Api.receive
    cases hteam : s.installations teamId with
    | none => exact ⟨.inl rfl,fun _ _ _ _ => rfl⟩
    | some installation =>
      cases fresh with
      | false => exact ⟨.inl rfl,fun _ _ _ _ => rfl⟩
      | true => exact ⟨.inr ⟨teamId,event,installation.1,installation.2,rfl,hteam,rfl⟩,fun _ _ _ _ => rfl⟩
  | handle i n stage at' => exact ⟨.inl (hmove hs),nofun⟩
  | request i tenantId actor deed at' => exact ⟨.inl (hmove hs),nofun⟩
  | latch i tenantId targets now at' => exact ⟨.inl (hmove hs),nofun⟩
  | advance i => exact ⟨.inl (hmove hs),nofun⟩
  | abort i => exact ⟨.inl (hmove hs),nofun⟩
  | world w => exact ⟨.inl (hmove hs),nofun⟩

private theorem adds_of_step (h : (apiRegime ι).Covered s.server) (hs : s.step rank a = some s') : s.Adds a s' := by
  have hcommits := commits_of_step h hs
  refine ⟨hcommits.imp_right fun ⟨i,x,ha,_,hdb,_⟩ => ⟨i,ha,hdb⟩,fun n m hn hn' => ?_,
    fun i x tenantId actor id body at' ha hx hreq => ?_,fun i x job stage at' ha hx hreq hecho => ?_,inbox_of_step hs⟩
  · rcases hcommits with hsame | ⟨i,x,ha,_,hdb,hbalanced,_⟩
    · rw [hsame.messages, hn] at hn'
      cases hn'
    · rw [hdb] at hn' ⊢
      have hown : s.desk.messages.own i n = some m :=
        (Table.visible_cases _ _ _ hn').resolve_right fun hc => by cases hn.symm.trans hc.2
      -- nothing was committed about the Message before
      have hnone : ∀ k row, row.messageId = n →
          ¬ (s.desk.deliveries.committed k = some row ∨ s.desk.jobs.committed k = some row) := by
        rintro k row rfl hrow
        obtain ⟨m',hm'⟩ := (h.1 : Orderly s.desk).dispatched.addressed k row hrow
        cases hn.symm.trans hm'
      refine ⟨i,ha,hown,fun k row hrow => ⟨fun hk => ?_,fun hk => ?_⟩⟩
      · exact (Table.visible_cases _ _ _ hk).resolve_right fun hc => hnone k row hrow (.inl hc.2)
      · exact (Table.visible_cases _ _ _ hk).resolve_right fun hc => hnone k row hrow (.inr hc.2)
  · rcases hcommits with hsame | ⟨j,y,hj,hy,hdb,_,hends⟩
    · exact ⟨hsame.deliveries,hsame.jobs⟩
    · cases ha.symm.trans hj
      cases hx.symm.trans hy
      rw [hreq] at hends
      have hsilent : Silent i s.desk := hends
      rw [hdb]
      exact ⟨committed_commit hsilent.deliveries,committed_commit hsilent.jobs⟩
  · rcases hcommits with hsame | ⟨j,y,hj,hy,hdb,_,hends⟩
    · exact ⟨hsame.tickets,hsame.messages,hsame.deliveries,hsame.jobs⟩
    · cases ha.symm.trans hj
      cases hx.symm.trans hy
      rw [hreq] at hends
      have huntouched : Untouched i s.desk := hends hecho
      rw [hdb]
      exact ⟨committed_commit huntouched.1,committed_commit huntouched.2.messages,committed_commit huntouched.2.deliveries,
        committed_commit huntouched.2.jobs⟩

/-- In every run, every reply that should leave is scheduled once, in the transaction that commits it; and neither
Notes nor echoes are sent anywhere. -/
theorem scheduled_of_run (rank : Uuid → Nat) {acts : List (ApiAction ι)} {s : Api ι}
    (hr : Run (Api.step rank) Always Api.initial acts s) :
    s.desk.Scheduled ∧ ∀ a s', s.step rank a = some s' → s.Adds a s' := by
  have hcovered := covered_of_api hr
  obtain ⟨moves,hmoves⟩ := server_of_run hr
  exact ⟨Orderly.scheduled hcovered.1 (rooted_of_run hmoves _),fun _ _ hs => adds_of_step hcovered hs⟩

end Runs

private def spokenBy (user text : String) (threadTs : Option String) : Event := fun key =>
  if key = "type" then some (.text "message")
  else if key = "user" then some (.text user)
  else if key = "channel" then some (.text "C1")
  else if key = "ts" then some (.text "1.0")
  else if key = "text" then some (.text text)
  else if key = "thread_ts" then threadTs.map .text
  else none

private def answered : List (ApiAction Bool) :=
  [ApiAction.install "T1" (some (1, "B1")), ApiAction.receive "T1" (some (spokenBy "U1" "It will not print." none)) true,
    ApiAction.handle false 0 .contactFor 1] ++ List.replicate 3 (ApiAction.advance false) ++
  ApiAction.handle false 0 (.openThread 0) 2 :: List.replicate 9 (ApiAction.advance false) ++
  ApiAction.request true 1 (.user 7) (.post 0 "Is it on?") 3 :: List.replicate 11 (ApiAction.advance true) ++
  [ApiAction.receive "T1" (some (spokenBy "B1" "Is it on?" (some "1.0"))) true, ApiAction.handle false 1 .contactFor 4,
    ApiAction.advance false]

theorem scheduled_of_answered : ∃ s : Api Bool, s.desk.Scheduled ∧ s.inbox.length = 2 ∧
    s.desk.messages.committed 1 = some ⟨1, 0, "Is it on?", .user 7, 3⟩ ∧ s.desk.messages.committed 2 = none ∧
    s.desk.deliveries.committed 0 = some ⟨1, 1, slackTarget "C1" "1.0"⟩ ∧ s.desk.deliveries.committed 1 = none ∧
    s.desk.jobs.committed 0 = some ⟨1, 1, slackTarget "C1" "1.0"⟩ ∧ s.desk.jobs.committed 1 = none := by
  have hrun : (exec (Api.step id) Always Api.initial answered).any (fun s => s.inbox.length = 2 ∧
      s.desk.messages.committed 1 = some ⟨1, 0, "Is it on?", .user 7, 3⟩ ∧ s.desk.messages.committed 2 = none ∧
      s.desk.deliveries.committed 0 = some ⟨1, 1, slackTarget "C1" "1.0"⟩ ∧ s.desk.deliveries.committed 1 = none ∧
      s.desk.jobs.committed 0 = some ⟨1, 1, slackTarget "C1" "1.0"⟩ ∧ s.desk.jobs.committed 1 = none) = true := by decide +kernel
  obtain ⟨s,hs,hend⟩ := exec_any hrun
  exact ⟨s,(scheduled_of_run id hs).1,of_decide_eq_true hend⟩

end Nivara.Slack
