import Nivara.Slack.Ingestion

/-! A route on its way through a target: read from an event, written down, and read back by the delivery. The reader of
events takes any text for a channel or a thread, and the two are joined by a slash that either of them may have. -/
namespace Nivara.Slack

/-- What names the route of a message: its channel, and its thread or, where it names none, the message itself. -/
def routeFields (message : Event) : List (Option Json) :=
  [message "channel", if (asText (message "thread_ts")).isSome then message "thread_ts" else message "ts"]

def Unslashed (message : Event) : Prop :=
  ∀ field ∈ routeFields message, ∀ text, asText field = some text → '/' ∉ text.toList

/-- The target of the route is read back as the route, and no other route that is ever accepted has it. -/
structure ParsesBack (message : SlackUtterance) : Prop where
  routed : routeFor (some message.channelId) (some message.threadTs) = some (slackTarget message.channelId message.threadTs)
  back : parseSlackTarget (slackTarget message.channelId message.threadTs) = some ⟨message.channelId, message.threadTs⟩
  apart : ∀ event botUserId other, readSlackMessage event botUserId = some other →
    slackTarget other.channelId other.threadTs = slackTarget message.channelId message.threadTs →
    other.channelId = message.channelId ∧ other.threadTs = message.threadTs

section Targets
variable {channelId threadTs : String}

private theorem not_mem_of_splitOn_singleton {s part : List Char} {c : Char} (h : s.splitOn c = [part]) : c ∉ s := by
  intro hc
  obtain ⟨before,rest,rfl⟩ := List.append_of_mem hc
  rw [List.splitOn_append_cons_self] at h
  have hlen := congrArg List.length h
  have hbefore := List.length_pos_iff.mpr (List.splitOn_ne_nil c before)
  have hrest := List.length_pos_iff.mpr (List.splitOn_ne_nil c rest)
  rw [List.length_append, List.length_singleton] at hlen
  omega

private theorem split_slackTarget : (slackTarget channelId threadTs).toList.splitOn '/' =
    channelId.toList.splitOn '/' ++ threadTs.toList.splitOn '/' := by
  have hlist : (slackTarget channelId threadTs).toList = channelId.toList ++ '/' :: threadTs.toList := by
    simp [slackTarget]
  rw [hlist, List.splitOn_append_cons_self]

private theorem parse_of_unslashed (hc : '/' ∉ channelId.toList) (ht : '/' ∉ threadTs.toList) (hc' : channelId ≠ "")
    (ht' : threadTs ≠ "") : parseSlackTarget (slackTarget channelId threadTs) = some ⟨channelId, threadTs⟩ := by
  unfold parseSlackTarget
  rw [split_slackTarget, List.splitOn_eq_singleton hc, List.splitOn_eq_singleton ht]
  simp [hc', ht']

private theorem unslashed_of_parse {destination : SlackDestination}
    (h : parseSlackTarget (slackTarget channelId threadTs) = some destination) :
    '/' ∉ channelId.toList ∧ '/' ∉ threadTs.toList := by
  unfold parseSlackTarget at h
  split at h
  · rename_i a b hsplit
    rw [split_slackTarget] at hsplit
    have hlen := congrArg List.length hsplit
    have hchannel := List.length_pos_iff.mpr (List.splitOn_ne_nil '/' channelId.toList)
    have hthread := List.length_pos_iff.mpr (List.splitOn_ne_nil '/' threadTs.toList)
    rw [List.length_append, List.length_cons, List.length_singleton] at hlen
    obtain ⟨part,hpart⟩ := List.length_eq_one_iff.mp (show (channelId.toList.splitOn '/').length = 1 by omega)
    obtain ⟨part',hpart'⟩ := List.length_eq_one_iff.mp (show (threadTs.toList.splitOn '/').length = 1 by omega)
    exact ⟨not_mem_of_splitOn_singleton hpart,not_mem_of_splitOn_singleton hpart'⟩
  · cases h

end Targets

section Routes
variable {event : Event} {botUserId : String} {message : SlackUtterance}

private theorem ne_empty_of_asText {field : Option Json} {text : String} (h : asText field = some text) : text ≠ "" := by
  unfold asText at h
  split at h
  · split at h
    · cases h
    · rename_i hne
      cases h
      exact hne
  · cases h

/-- The route of an accepted message, in the fields it was read from. -/
private theorem route_of_read (h : readSlackMessage (some event) botUserId = some message) :
    asText (event "channel") = some message.channelId ∧
      asText (if (asText (event "thread_ts")).isSome then event "thread_ts" else event "ts") = some message.threadTs := by
  unfold readSlackMessage at h
  obtain ⟨_,he,h⟩ := Option.bind_eq_some_iff.mp h
  cases he
  split at h
  · cases h
  · split at h
    · cases h
    · split at h
      · cases h
      · obtain ⟨slackUserId,_,h⟩ := Option.bind_eq_some_iff.mp h
        split at h
        · cases h
        · obtain ⟨channelId,hchannel,h⟩ := Option.bind_eq_some_iff.mp h
          obtain ⟨ts,hts,h⟩ := Option.bind_eq_some_iff.mp h
          obtain ⟨text,_,h⟩ := Option.bind_eq_some_iff.mp h
          split at h
          · cases h
          · cases h
            refine ⟨hchannel,?_⟩
            cases hthread : asText (event "thread_ts") with
            | none => simpa using hts
            | some threadTs =>
              by_cases heq : threadTs = ts
              · subst heq
                simpa using hthread
              · simpa [heq] using hthread

/-- A route is read back, and is told from every other, exactly when what named it has no slash. -/
theorem parsesBack_iff (h : readSlackMessage (some event) botUserId = some message) : ParsesBack message ↔ Unslashed event := by
  obtain ⟨hchannel,hthread⟩ := route_of_read h
  have hfields : Unslashed event ↔ '/' ∉ message.channelId.toList ∧ '/' ∉ message.threadTs.toList := by
    simp only [Unslashed, routeFields, List.forall_mem_cons, List.not_mem_nil, false_imp_iff, implies_true, and_true, hchannel,
      hthread, Option.some.injEq, forall_eq']
  rw [hfields]
  constructor
  · intro hback
    exact unslashed_of_parse hback.back
  · rintro ⟨hc,ht⟩
    have hc' := ne_empty_of_asText hchannel
    have ht' := ne_empty_of_asText hthread
    have hparse := parse_of_unslashed hc ht hc' ht'
    refine ⟨by simp [routeFor, Option.filter, hc', ht'],hparse,fun event' botUserId' other hother htarget => ?_⟩
    cases event' with
    | none => cases hother
    | some event' =>
      obtain ⟨hchannel',hthread'⟩ := route_of_read hother
      -- the target has one slash, so that the other route has none in its parts
      rw [← htarget] at hparse
      obtain ⟨hc₂,ht₂⟩ := unslashed_of_parse hparse
      rw [parse_of_unslashed hc₂ ht₂ (ne_empty_of_asText hchannel') (ne_empty_of_asText hthread')] at hparse
      exact SlackDestination.mk.inj (Option.some.inj hparse)

private def said (channel ts : String) : Event := fun key =>
  if key = "type" then some (.text "message") else if key = "user" then some (.text "U1")
  else if key = "channel" then some (.text channel) else if key = "ts" then some (.text ts)
  else if key = "text" then some (.text "hello") else none

theorem parsesBack_of_plain : ∃ message, readSlackMessage (some (said "C1" "1.0")) "B1" = some message ∧ ParsesBack message := by
  have hread : readSlackMessage (some (said "C1" "1.0")) "B1" = some ⟨"C1", "1.0", "U1", "hello"⟩ := by decide +kernel
  refine ⟨_,hread,(parsesBack_iff hread).mpr ?_⟩
  have hthread : asText (said "C1" "1.0" "thread_ts") = none := by decide +kernel
  intro field hfield text htext
  simp only [routeFields, hthread, Option.isSome_none, Bool.false_eq_true, if_false, List.mem_cons, List.not_mem_nil, or_false] at hfield
  rcases hfield with rfl | rfl
  · cases htext
    decide
  · cases htext
    decide

/-- The reply would be abandoned, and another route has the same target. -/
theorem slash_lost : ∃ message other, readSlackMessage (some (said "C1/2" "1.0")) "B1" = some message ∧
    readSlackMessage (some (said "C1" "2/1.0")) "B1" = some other ∧ message.channelId ≠ other.channelId ∧
    slackTarget message.channelId message.threadTs = slackTarget other.channelId other.threadTs ∧
    parseSlackTarget (slackTarget message.channelId message.threadTs) = none ∧ ¬ ParsesBack message := by
  have hparse : parseSlackTarget (slackTarget "C1/2" "1.0") = none := by decide +kernel
  refine ⟨⟨"C1/2", "1.0", "U1", "hello"⟩,⟨"C1", "2/1.0", "U1", "hello"⟩,by decide +kernel,by decide +kernel,by decide,by decide,hparse,
    fun h => ?_⟩
  cases hparse.symm.trans h.back

end Routes
end Nivara.Slack
