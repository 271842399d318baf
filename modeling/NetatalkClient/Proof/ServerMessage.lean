import NetatalkClient.Model.ServerMessage
import NetatalkClient.Proof.Pascal

/-!
# Whose message a caller is handed

`replyText` is the text of a reply to FPGetSrvrMsg. `getsrvrmsgReply_eq` says what the handler
makes of a reply whose text lies within it: the caller's buffer holds that text, except that an
empty UTF-8 text leaves the static buffer alone, and the caller is handed what stood there.

`handed_texts_of_replies` is the statement over whole histories: with every text within its reply,
and no empty UTF-8 text while the static buffer holds an earlier message, each caller is handed the
text of the reply to its own request. `earlier_message_handed` is a history without the second
condition, in which the attention of one server is answered with the shutdown notice of another.
-/

namespace NC

open MessageState MessageExchange

/-! ## The text of a reply -/

/-- The bitmap of a reply says that its text is UTF-8. -/
def ReplyIsUtf8 (frame : Bytes) : Prop := beNat ((frame.drop 18).take 2) &&& getsrvrmsgUtf8 ≠ 0

instance (frame : Bytes) : Decidable (ReplyIsUtf8 frame) :=
  inferInstanceAs (Decidable (_ ≠ _))

/-- How many bytes the length of the text takes. -/
def lengthSize (frame : Bytes) : Nat := if ReplyIsUtf8 frame then 2 else 1

/-- The length that a reply announces. -/
def announced (frame : Bytes) : Nat :=
  beNat ((frame.drop getsrvrmsgReplySize).take (lengthSize frame))

/-- As much of a reply's text as a caller's buffer takes. -/
def replyText (frame : Bytes) : Bytes :=
  if frame.length < getsrvrmsgReplySize then []
  else (frame.drop (getsrvrmsgReplySize + lengthSize frame)).take
    (min (announced frame) (loginmesgLen - 1))

/-- The text, as far as the caller's buffer takes it, lies within the reply. -/
def TextWithin (frame : Bytes) : Prop :=
  frame.length < getsrvrmsgReplySize ∨
    getsrvrmsgReplySize + lengthSize frame + min (announced frame) (loginmesgLen - 1)
      ≤ frame.length

instance (frame : Bytes) : Decidable (TextWithin frame) := inferInstanceAs (Decidable (_ ∨ _))

/-- A reply whose text is UTF-8 and empty. -/
def EmptyUtf8 (frame : Bytes) : Prop :=
  getsrvrmsgReplySize ≤ frame.length ∧ ReplyIsUtf8 frame ∧ announced frame = 0

instance (frame : Bytes) : Decidable (EmptyUtf8 frame) := inferInstanceAs (Decidable (_ ∧ _))

theorem textBuffer_nil : textBuffer loginmesgLen [] = callersBuffer := rfl

/-! ## The handler -/

/-- What the static buffer holds after a reply. -/
def mesgAfter (mesg frame : Bytes) : Bytes :=
  if EmptyUtf8 frame then mesg else textBuffer loginmesgLen (replyText frame)

variable {mesg : Bytes} {other : Option Bytes} {s : MessageState}

theorem getsrvrmsgReply_eq {size : Nat} {frame left : Bytes} (h : TextWithin frame)
    (hsize : getsrvrmsgReplySize ≤ size) (hle : size ≤ frame.length) :
    getsrvrmsgReply size mesg other (frame ++ left)
      = .ok (0, mesgAfter mesg frame, other.map fun _ => mesgAfter mesg frame) := by
  have hlen := Nat.le_trans hsize hle
  have hin := h.resolve_left (by omega)
  have hbits := Reads.nat_frame (f := frame) (i := 18) (n := 2) hlen left
  rw [getsrvrmsgReply, if_neg (by omega), Reads.bind_ok hbits]
  unfold mesgAfter EmptyUtf8 replyText
  by_cases hu : ReplyIsUtf8 frame
  · simp only [announced, lengthSize, hu] at hin ⊢
    have hcopy := copyFromPascalTwo_frame left mesg (by decide) hin
    rw [if_pos (show _ ≠ _ from hu), Reads.bind_ok hcopy]
    simp only [hlen, true_and, if_neg (Nat.not_lt.2 hlen)]
    rfl
  · simp only [announced, lengthSize, hu] at hin ⊢
    have hcopy := copyFromPascal_frame left mesg (by decide) hin
    rw [if_neg (show ¬ _ ≠ _ from hu), Reads.bind_ok hcopy]
    simp only [false_and, and_false, if_neg (Nat.not_lt.2 hlen)]
    rfl

theorem getsrvrmsgReply_short {size : Nat} {b : Bytes} (hsize : size < getsrvrmsgReplySize) :
    getsrvrmsgReply size mesg other b = .ok (-1, mesg, other) := by
  rw [getsrvrmsgReply, if_pos hsize]
  rfl

/-! ## Histories -/

/-- The text that belongs to a request. -/
def MessageExchange.text : MessageExchange → Bytes
  | .unanswered => []
  | .answered frame _ => replyText frame

/-- The text lies within its reply, and an empty UTF-8 text finds the static buffer empty. -/
def OwnText (s : MessageState) : MessageExchange → Prop
  | .unanswered => True
  | .answered frame _ => TextWithin frame ∧ (EmptyUtf8 frame → s.mesg = callersBuffer)

instance (s : MessageState) (e : MessageExchange) : Decidable (OwnText s e) := by
  cases e <;> unfold OwnText <;> infer_instance

theorem replyText_emptyUtf8 {frame : Bytes} (h : EmptyUtf8 frame) : replyText frame = [] := by
  rw [replyText, if_neg (by have := h.1; omega), h.2.2]
  simp

/-- A request whose reply meets the condition hands its caller the text of that reply. -/
theorem MessageState.step_text {e : MessageExchange} (h : OwnText s e) :
    ∃ t, s.step e = some t ∧ t.handed = s.handed ++ [textBuffer loginmesgLen e.text] := by
  cases e with
  | unanswered => exact ⟨_, rfl, rfl⟩
  | answered frame left =>
    by_cases hlen : frame.length < getsrvrmsgReplySize
    · refine ⟨⟨s.mesg, s.handed ++ [callersBuffer]⟩, ?_, ?_⟩
      · simp [step, getsrvrmsgReply_short hlen]
      · simp [text, replyText, if_pos hlen, textBuffer_nil]
    · refine ⟨⟨mesgAfter s.mesg frame, s.handed ++ [mesgAfter s.mesg frame]⟩, ?_, ?_⟩
      · simp [step, getsrvrmsgReply_eq h.1 (Nat.not_lt.1 hlen) (Nat.le_refl _)]
      · by_cases he : EmptyUtf8 frame
        · simp [mesgAfter, h.2 he, text, replyText_emptyUtf8 he, textBuffer_nil]
        · simp [mesgAfter, if_neg he, text]

theorem MessageState.run_text {es : List MessageExchange} (hok : OkRun step OwnText s es) :
    ∃ t, runSteps step s es = some t ∧
      t.handed = s.handed ++ es.map fun e => textBuffer loginmesgLen e.text := by
  induction es generalizing s with
  | nil => exact ⟨s, rfl, by simp⟩
  | cons e es ih =>
    obtain ⟨t, ht, hhanded⟩ := step_text hok.1
    obtain ⟨u, hu, hrun⟩ := ih (hok.2 t ht)
    refine ⟨u, runSteps_cons.2 ⟨t, ht, hu⟩, ?_⟩
    rw [hrun, hhanded]
    simp

/-- In every history in which each text lies within its reply and an empty UTF-8 text finds the
static buffer empty, every caller is handed the text of the reply to its own request, and nothing
outside the replies is read. -/
theorem handed_texts_of_replies (es : List MessageExchange)
    (hok : OkRun MessageState.step OwnText .init es) :
    ∃ s, runSteps MessageState.step .init es = some s ∧
      s.handed = es.map fun e => textBuffer loginmesgLen e.text :=
  run_text hok

/-- A reply to FPGetSrvrMsg: the bitmap, and the text with its length. -/
def messageReply (bitmap : UInt8) (text : Bytes) : Bytes :=
  List.replicate 19 0 ++ [bitmap] ++ text

/-- A UTF-8 message, no reply, an empty Mac Roman message, and then an empty UTF-8 one. -/
def emptyMessages : List MessageExchange :=
  [.answered (messageReply 3 [0, 2, 72, 105]) [1, 2], .unanswered, .answered (messageReply 1 [0]) [],
    .answered (messageReply 3 [0, 0]) []]

theorem handed_texts_of_replies_empty :
    OkRun MessageState.step OwnText .init emptyMessages ∧
    ∃ s, runSteps MessageState.step .init emptyMessages = some s ∧
      s.handed = [textBuffer loginmesgLen [72, 105], callersBuffer, callersBuffer, callersBuffer] := by
  have hok : OkRun step OwnText .init emptyMessages := by decide +kernel
  obtain ⟨s, hs, h⟩ := handed_texts_of_replies _ hok
  exact ⟨hok, s, hs, h.trans (by decide +kernel)⟩

/-- The text of a shutdown notice. -/
def shutdownNotice : Bytes := ascii "The server is going down for maintenance."

/-- An attention that asks for the message. -/
def messageAttention : Bytes := List.replicate 11 0 ++ [2, 0, 0, 0, 0, 32, 0]

/-- A server's shutdown notice, and then the empty message of another server's attention: the
attention is handed the notice, and ends its own server's connection. -/
theorem earlier_message_handed :
    (runSteps MessageState.step .init [.answered (messageReply 3 ([0, 41] ++ shutdownNotice)) [],
        .answered (messageReply 3 [0, 0]) []]).map MessageState.handed
      = some [textBuffer loginmesgLen shutdownNotice, textBuffer loginmesgLen shutdownNotice] ∧
    replyText (messageReply 3 [0, 0]) = [] ∧
    attentionShutdown messageAttention (textBuffer loginmesgLen shutdownNotice) = true ∧
    attentionShutdown messageAttention callersBuffer = false := by
  decide +kernel

end NC
