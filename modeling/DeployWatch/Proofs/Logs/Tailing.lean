/-
# What a tail does in one poll

A tail over the provider's store sends one request in every poll and takes one reply
(`Tail.polled`).  So what holds of a tail that has not begun and is kept by every poll holds
after any number of polls (`Tail.yields_induction`), and a running watch is always in a state
that polls have led to, perhaps with one more request in flight (`Tail.requests_of_steps`).
-/

import DeployWatch.Logs.Tail
import DeployWatch.Proofs.Watch.Delivery
import DeployWatch.Proofs.Logs.Position

namespace DeployWatch.Tail

open DeployWatch.Watch DeployWatch.Provider

variable {epoch : Int}

/-! ### One poll -/

/-- The poll of a tail: the reply that it takes, the tail after it and the sample it gives. -/
def polled (epoch : Int) (asked : Nat) (reply : Reply LogAnswer) (t : Tail LogReplies) :
    Tail LogReplies × Sample TailEvent :=
  let query := dated epoch asked t.query
  let (after, sample) := absorb query (pageOfReply query reply)
  (⟨⟨t.store.replies.drop 1, t.store.requests ++ [requestOf query]⟩, after⟩, sample)

/-- The sampler of a tail takes the first of the replies to come. -/
theorem call_eq_polled (asked answered : Nat) (t : Tail LogReplies) :
    (sampler LogReplies.store epoch).call asked answered t =
      polled epoch asked (t.store.replies.head?.getD (.error ⟨"", ""⟩)) t := rfl

@[simp] theorem polled_replies (asked : Nat) (reply : Reply LogAnswer) (t : Tail LogReplies) :
    (polled epoch asked reply t).1.store.replies = t.store.replies.drop 1 := rfl

@[simp] theorem polled_requests (asked : Nat) (reply : Reply LogAnswer) (t : Tail LogReplies) :
    (polled epoch asked reply t).1.store.requests =
      t.store.requests ++ [requestOf (dated epoch asked t.query)] := rfl

@[simp] theorem polled_query (asked : Nat) (reply : Reply LogAnswer) (t : Tail LogReplies) :
    (polled epoch asked reply t).1.query =
      (absorb (dated epoch asked t.query) (pageOfReply (dated epoch asked t.query) reply)).1 :=
  rfl

@[simp] theorem polled_sample (asked : Nat) (reply : Reply LogAnswer) (t : Tail LogReplies) :
    (polled epoch asked reply t).2 =
      (absorb (dated epoch asked t.query) (pageOfReply (dated epoch asked t.query) reply)).2 :=
  rfl

/-! ### Any number of polls -/

/-- What every poll keeps holds after any number of polls, as long as there are replies. -/
theorem yields_induction {α : Type} {reply : α → Reply LogAnswer} {answers : List α}
    {P : List α → List (Sample TailEvent) → Tail LogReplies → Prop} {t : Tail LogReplies}
    (replies : t.store.replies = answers.map reply) (start : P [] [] t)
    (poll : ∀ past a samples t' asked, past ++ [a] <+: answers → P past samples t' →
      P (past ++ [a]) (samples ++ [(polled epoch asked (reply a) t').2])
        (polled epoch asked (reply a) t').1)
    {samples : List (Sample TailEvent)} {t' : Tail LogReplies}
    (yields : (sampler LogReplies.store epoch).Yields t samples t')
    (enough : samples.length ≤ answers.length) :
    P (answers.take samples.length) samples t' ∧
      t'.store.replies = (answers.drop samples.length).map reply := by
  induction yields with
  | nil => exact ⟨start, by simpa using replies⟩
  | @snoc samples t' before asked answered ih =>
    rw [List.length_append, List.length_singleton] at enough
    obtain ⟨inv, rest⟩ := ih (by omega)
    have here : samples.length < answers.length := enough
    have next : t'.store.replies.head?.getD (.error ⟨"", ""⟩) = reply answers[samples.length] := by
      rw [rest, List.drop_eq_getElem_cons here]
      rfl
    rw [call_eq_polled, next, List.length_append, List.length_singleton,
      List.take_succ_eq_append_getElem here]
    refine ⟨poll _ _ _ _ _ ?_ inv, ?_⟩
    · rw [← List.take_succ_eq_append_getElem here]
      exact List.take_prefix _ _
    · rw [polled_replies, rest, ← List.map_drop, List.drop_drop]

/-- A running watch is in a state that polls have led to; at most the next request has been sent
as well. -/
theorem requests_of_steps {t : Tail LogReplies} {settings : LogSettings} {capacity : Nat}
    {cancelled : Bool} {n : Net (Poller (Tail LogReplies) TailEvent) TailEvent}
    (run : Net.Steps (task LogReplies.store epoch settings)
      (Net.start { sampler := t } capacity cancelled) n) :
    ∃ t' asked, (sampler LogReplies.store epoch).Yields t n.task.samples t' ∧
      t'.store.requests <+: n.task.sampler.store.requests ∧
      n.task.sampler.store.requests <+:
        t'.store.requests ++ [requestOf (dated epoch asked t'.query)] := by
  have tracks := Poller.tracks_of_steps run (Poller.Tracks.fresh _ t)
  by_cases flying : ∃ due, n.task.phase = .sampling due
  · obtain ⟨due, phase⟩ := flying
    obtain ⟨asked, t', yields, started, -⟩ := tracks.of_sampling phase
    have sent : n.task.sampler.store.requests =
        t'.store.requests ++ [requestOf (dated epoch asked t'.query)] := by rw [started]; rfl
    exact ⟨t', asked, yields, sent ▸ List.prefix_append _ _, sent ▸ List.prefix_refl _⟩
  · obtain ⟨yields, -⟩ := tracks.of_between fun due phase => flying ⟨due, phase⟩
    exact ⟨_, 0, yields, List.prefix_refl _, List.prefix_append _ _⟩

/-- Each request with its answer is of this kind. -/
def Answered (P : LogRequest → LogAnswer → Prop) (requests : List LogRequest)
    (answers : List LogAnswer) : Prop := ∀ x ∈ requests.zip answers, P x.1 x.2

namespace Answered

variable {P : LogRequest → LogAnswer → Prop} {requests more : List LogRequest}
  {answers : List LogAnswer}

/-- Requests without an answer do not count. -/
theorem of_shorter (h : Answered P (requests ++ more) answers)
    (length : requests.length = answers.length) : Answered P requests answers := by
  have zip : (requests ++ more).zip (answers ++ []) = requests.zip answers ++ more.zip [] :=
    List.zip_append length
  rw [List.append_nil] at zip
  exact fun x hx => h x (zip ▸ List.mem_append_left _ hx)

/-- The requests before the last one, and the last one. -/
theorem of_snoc {request : LogRequest} {answer : LogAnswer}
    (h : Answered P (requests ++ [request]) (answers ++ [answer]))
    (length : requests.length = answers.length) :
    Answered P requests answers ∧ P request answer := by
  have zip : (requests ++ [request]).zip (answers ++ [answer]) =
      requests.zip answers ++ [(request, answer)] := List.zip_append length
  refine ⟨fun x hx => h x (zip ▸ List.mem_append_left _ hx), ?_⟩
  exact h (request, answer) (zip ▸ List.mem_append_right _ (List.mem_singleton.mpr rfl))

end Answered

end DeployWatch.Tail
