/-
  DeskHop.Bulk.GoBackN — a transfer hands over what was sent, or says that it did not.

  Proved, for every run of two endpoints over a channel that loses messages
  (`transfer_faithful`), as long as the receiving application cancels no stream inside
  that stream's own chunk hook: chunks are consecutive pieces of the content from its
  start, a stream reported received and sound has been handed over whole, and the
  sender is told "sent and sound" only after that report.

  A stream cancelled inside its own chunk hook is cleared there, and the rest of
  `rxChunk` then finds it complete: it is reported received and sound, after the
  cancellation and short of its end (`cancelled_in_hook`).
-/

import DeskHop.Bulk.Sender

namespace DeskHop.Bulk

open DeskHop.Lib

/-! ## What one side's progress means to the other -/

theorem Receiver.Inv.mono {contents contents' : UInt8 → Option (List Byte)} {base base' : List Note}
    {hold : Option Handle} {d : Data} (h : Receiver.Inv contents base hold d)
    (hc : ∀ id c, contents id = some c → contents' id = some c) (hbase : base' <+: d.notes) :
    Receiver.Inv contents' base' hold d := by
  refine ⟨hbase, fun i hi hs => ?_, h.out, h.notes.mono fun pre n hj => ?_⟩
  · obtain ⟨h1, h2, ⟨c, h3, h4⟩, h5⟩ := h.slots i hi hs
    exact ⟨h1, h2, ⟨c, hc _ _ h3, h4⟩, h5⟩
  · cases n with
    | chunk k off data =>
      obtain ⟨id, c, h1, h2, h3⟩ := hj
      exact ⟨id, c, h1, hc _ _ h2, h3⟩
    | received k r =>
      intro hr
      obtain ⟨id, c, h1, h2, h3⟩ := hj hr
      exact ⟨id, c, h1, hc _ _ h2, h3⟩
    | offered => trivial
    | begun => exact hj
    | sent => exact hj

theorem Sender.Inv.mono {base base' : List Note} {reported reported' : UInt8 → Prop} {d : Data}
    (h : Sender.Inv base reported d) (hr : ∀ id, reported id → reported' id) (hbase : base' <+: d.notes) :
    Sender.Inv base' reported' d := by
  refine ⟨hbase, h.fresh, h.nextId, h.slots, h.out, h.notes.mono fun pre n hj => ?_⟩
  cases n with
  | sent k r =>
    intro hok
    obtain ⟨id, h1, h2⟩ := hj hok
    exact ⟨id, h1, hr id h2⟩
  | _ => trivial

theorem Receiver.Inv.posted {contents : UInt8 → Option (List Byte)} {base : List Note} {hold : Option Handle} {d : Data}
    (h : Receiver.Inv contents base hold d) : Receiver.Inv contents base hold d.posted :=
  ⟨h.grown, h.slots, fun _ hm => absurd hm List.not_mem_nil, h.notes⟩

theorem Sender.Inv.posted {base : List Note} {reported : UInt8 → Prop} {d : Data} (h : Sender.Inv base reported d) :
    Sender.Inv base reported d.posted :=
  ⟨h.grown, h.fresh, h.nextId, h.slots, fun _ hm => absurd hm List.not_mem_nil, h.notes⟩

theorem mail_mem {d : Data} {peer : Addr} {p : List Byte} (h : p ∈ d.mail peer) : ∃ m ∈ d.out, m.2 = p := by
  obtain ⟨m, hm, rfl⟩ := List.mem_map.mp h
  exact ⟨m, List.mem_of_mem_filter hm, rfl⟩

theorem unread_mem {inbox : List (List Byte)} {e : Act} {p : List Byte} (h : p ∈ unread inbox e) : p ∈ inbox := by
  cases e with
  | app => exact h
  | tick => exact h
  | rx => exact List.mem_of_mem_tail h

namespace Transfer

/-! ## The joint invariant -/

structure Inv (t : Transfer) : Prop where
  sender : Sender.Inv t.sender.notes (Reported t.receiver.notes) t.sender
  sends : t.sender.sends < 255
  receiver : Receiver.Inv (contentOf t.sender.notes) t.receiver.notes none t.receiver
  toR : ∀ p ∈ t.toR, Genuine (contentOf t.sender.notes) p
  toS : ∀ p ∈ t.toS, Answer (Reported t.receiver.notes) p

theorem opened_inv {t : Transfer} (h : Opened t) : Inv t := by
  obtain ⟨⟨hs1, hn1, hc1, ho1, hl1⟩, ⟨hs2, -, -, ho2, hl2⟩, htoR, htoS⟩ := h
  refine ⟨⟨List.prefix_refl _, ?_, ?_, ?_, ?_, ?_⟩, by omega, ⟨List.prefix_refl _, ?_, ?_, ?_⟩, ?_, ?_⟩
  · rw [hl1]
    exact fun _ _ _ h => absurd h List.not_mem_nil
  · rw [hn1, hc1]
    decide
  · rw [hs1]
    exact fun _ h => absurd rfl h
  · rw [ho1]
    exact fun _ h => absurd h List.not_mem_nil
  · rw [hl1]
    exact each_nil _
  · rw [hs2]
    exact fun _ _ h => absurd rfl h
  · rw [ho2]
    exact fun _ h => absurd h List.not_mem_nil
  · rw [hl2]
    exact each_nil _
  · rw [htoR]
    exact fun _ h => absurd h List.not_mem_nil
  · rw [htoS]
    exact fun _ h => absurd h List.not_mem_nil

theorem sender_inv {t : Transfer} (hi : Inv t) {e : Act} (hok : Lawful t (.sender e)) : Inv (t.step (.sender e)) := by
  obtain ⟨hfits, hsends⟩ := hok
  have hturn := Sender.turn_inv (fun _ => hi.sender) t.addrR t.addrS hi.toS hfits hsends
  have hknown := fun id c => @contentOf_mono _ _ hturn.grown id c
  refine ⟨(hturn.mono (fun _ h => h) (List.prefix_refl _)).posted, hsends, hi.receiver.mono hknown (List.prefix_refl _),
    fun p hp => ?_, fun p hp => hi.toS p (unread_mem hp)⟩
  rcases List.mem_append.mp hp with hp | hp
  · exact (hi.toR p hp).mono hknown
  · obtain ⟨m, hm, rfl⟩ := mail_mem hp
    exact hturn.out m hm

theorem receiver_inv {t : Transfer} (hi : Inv t) {e : Act} (hok : Calm t (.receiver e)) : Inv (t.step (.receiver e)) := by
  obtain ⟨hquiet, hcalm⟩ := hok
  have hturn := Receiver.turn_inv hi.receiver t.addrS t.addrR hi.toR hquiet (by
    rintro react now rfl
    exact hcalm)
  have hknown := fun id => @Reported.mono _ _ hturn.grown id
  refine ⟨hi.sender.mono hknown (List.prefix_refl _), hi.sends,
    (hturn.mono (fun _ _ h => h) (List.prefix_refl _)).posted, fun p hp => hi.toR p (unread_mem hp), fun p hp => ?_⟩
  rcases List.mem_append.mp hp with hp | hp
  · exact (hi.toS p hp).mono hknown
  · obtain ⟨m, hm, rfl⟩ := mail_mem hp
    exact hturn.out m hm

theorem step_inv {t : Transfer} (hi : Inv t) {e : Event} (hok : Calm t e) : Inv (t.step e) := by
  cases e with
  | sender e => exact sender_inv hi hok.1
  | receiver e => exact receiver_inv hi hok
  | loseToR k => exact ⟨hi.sender, hi.sends, hi.receiver, fun p hp => hi.toR p (List.mem_of_mem_eraseIdx hp), hi.toS⟩
  | loseToS k => exact ⟨hi.sender, hi.sends, hi.receiver, hi.toR, fun p hp => hi.toS p (List.mem_of_mem_eraseIdx hp)⟩

/-- The contract of the transport, in every run in which no stream is cancelled inside
    its own chunk hook. -/
theorem transfer_faithful {t : Transfer} (h : Reach Opened Calm step t) : Faithful t := by
  have hi : Inv t := h.inv (fun _ => opened_inv) fun _ _ hi hok => step_inv hi hok
  refine ⟨fun pre k off data post hlog => ?_, fun pre k post hlog => ?_, fun pre k post hlog => ?_⟩
  · exact hi.receiver.notes pre _ post hlog
  · exact hi.receiver.notes pre _ post hlog rfl
  · exact hi.sender.notes pre _ post hlog rfl

/-! ## Two runs -/

instance (t : Transfer) (e : Event) : Decidable (Lawful t e) := by
  unfold Lawful
  cases e <;> infer_instance

instance (t : Transfer) (e : Event) : Decidable (Calm t e) := by
  unfold Calm
  cases e with
  | receiver e => cases e <;> infer_instance
  | _ => infer_instance

def sampleTransfer : Transfer := ⟨dataInit, dataInit, 1, 2, [], []⟩

theorem sampleTransfer_opened : Opened sampleTransfer :=
  ⟨⟨rfl, rfl, rfl, rfl, rfl⟩, ⟨rfl, rfl, rfl, rfl, rfl⟩, rfl, rfl⟩

/-- One byte more than a chunk. -/
def sampleContent : List Byte := List.replicate 61 7

def idle : Fin 2 → Script := fun _ => .done

/-- The first inbound handle. -/
def inbound : UInt8 := 4

/-- Two chunks are on their way; the receiver has accepted. -/
def twoChunks : List Event :=
  [.sender (.app (.call (.send 2 0 [] sampleContent) .done .done) 1000),
    .receiver (.rx (fun _ => .call (.accept inbound) .done .done) 1001), .sender (.rx idle 1002)]

def completed : List Event :=
  twoChunks ++ [.receiver (.rx idle 1003), .receiver (.rx idle 1004), .sender (.rx idle 1005)]

theorem transfer_faithful_of_two_chunks : Reported (completed.foldl step sampleTransfer).receiver.notes 1 := by
  have hf := transfer_faithful (Reach.run (.init sampleTransfer_opened) completed (by decide +kernel))
  obtain ⟨id, hid, hr⟩ := hf.sent [.begun 0 1 sampleContent] 0 [] (by decide +kernel)
  have h1 : streamOf 0 [.begun 0 1 sampleContent] = some 1 := by decide +kernel
  rw [h1] at hid
  cases hid
  exact hr

/-- The application cancels when the first chunk is handed to it. -/
def cancelling : List Event :=
  twoChunks ++ [.receiver (.rx (fun _ => .call (.cancel inbound) .done .done) 1003)]

theorem cancelled_in_hook : ¬ ∀ t, Reach Opened Lawful step t → Faithful t := by
  intro h
  have hf := h _ (Reach.run (.init sampleTransfer_opened) cancelling (by decide +kernel))
  have hlog : (cancelling.foldl step sampleTransfer).receiver.notes =
      [.offered 4 1 1 0 61 [], .chunk 4 0 (List.replicate 60 7), .received 4 dataCancelled] ++
        .received 4 dataOk :: [] := by decide +kernel
  obtain ⟨id, c, hid, hc, hd⟩ := hf.received _ _ _ hlog
  have h1 : contentOf (cancelling.foldl step sampleTransfer).sender.notes 1 = some sampleContent := by decide +kernel
  have h2 : streamOf 4 [.offered 4 1 1 0 61 [], .chunk 4 0 (List.replicate 60 7), .received 4 dataCancelled] = some 1 := by
    decide +kernel
  rw [h2] at hid
  cases hid
  rw [h1] at hc
  cases hc
  exact absurd hd (by decide +kernel)

end Transfer

end DeskHop.Bulk
