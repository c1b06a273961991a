import PersonalCloud.Http.RequestParser
import PersonalCloud.Http.ResponseParser

/-!
# Messages in pieces

The bytes of a message may come in any pieces, cut inside a line end, at the blank line or inside
the content. Both parsers end in the state in which the bytes as a whole would have left them, and
use as many. A message that is complete takes nothing of the next one.

## Main results

* `arrive_eq_whole` — both parsers, for all pieces.
-/

namespace PersonalCloud.Http

open PersonalCloud.Lib

def ReceivedRequest.receiveComplete (r : ReceivedRequest) : Prop :=
  r.recvState = .getComplete

/-- The headers are there, and the body as far as they say. -/
def HttpResponse.inputComplete (r : HttpResponse) : Prop :=
  (r.responseDone ∧ r.headersDone) ∧ r.bodyLen = r.bodySoFar

instance (r : ReceivedRequest) : Decidable r.receiveComplete :=
  inferInstanceAs (Decidable (_ = _))

instance (r : HttpResponse) : Decidable r.inputComplete :=
  inferInstanceAs (Decidable (_ ∧ _))

/-- What is fed to a valid request leaves it valid. -/
theorem ReceivedRequest.Valid.receive {r : ReceivedRequest} (h : r.Valid) (buf : List UInt8) :
    (r.receive buf).1.Valid := by
  rw [receive_eq_feed h]
  exact feed_invariant (fun _ _ _ h ht => Valid.take h ht) h buf

theorem HttpResponse.Valid.addInput {r : HttpResponse} (h : r.Valid) (inbuf : List UInt8) :
    (r.addInput inbuf).1.Valid := by
  rw [addInput_eq_feed h]
  exact feed_invariant (fun _ _ _ h ht => Valid.take h ht) h inbuf

theorem ReceivedRequest.receive_of_complete {r : ReceivedRequest} (h : r.Valid)
    (hcomplete : r.receiveComplete) (buf : List UInt8) : r.receive buf = (r, 0) := by
  rw [receive_eq_feed h, feed_complete hcomplete]

theorem HttpResponse.addInput_of_complete {r : HttpResponse} (h : r.Valid)
    (hcomplete : r.inputComplete) (inbuf : List UInt8) : r.addInput inbuf = (r, 0) := by
  have hlines : ¬r.InLines := by
    rintro (hresponse | hheaders)
    · exact hresponse hcomplete.1.1
    · exact hheaders hcomplete.1.2
  rw [addInput_eq_feed h, feed_complete hlines hcomplete.2]

theorem arrive_eq_whole (pieces : List (List UInt8)) (noBody : Bool) :
    (arrive ReceivedRequest.receive .start [] pieces =
        ReceivedRequest.start.receive pieces.flatten ∧
      ∀ more, (ReceivedRequest.start.receive pieces.flatten).1.receiveComplete →
        (ReceivedRequest.start.receive pieces.flatten).1.receive more =
          ((ReceivedRequest.start.receive pieces.flatten).1, 0)) ∧
    arrive HttpResponse.addInput (.start noBody) [] pieces =
        (HttpResponse.start noBody).addInput pieces.flatten ∧
      ∀ more, ((HttpResponse.start noBody).addInput pieces.flatten).1.inputComplete →
        ((HttpResponse.start noBody).addInput pieces.flatten).1.addInput more =
          (((HttpResponse.start noBody).addInput pieces.flatten).1, 0) := by
  have hrequest := ReceivedRequest.valid_start
  have hresponse := HttpResponse.valid_start noBody
  refine ⟨⟨ReceivedRequest.arrive_receive hrequest pieces, fun more hcomplete => ?_⟩,
    HttpResponse.arrive_addInput hresponse pieces, fun more hcomplete => ?_⟩
  · exact ReceivedRequest.receive_of_complete (hrequest.receive _) hcomplete more
  · exact HttpResponse.addInput_of_complete (hresponse.addInput _) hcomplete more

/-- A request and a response, cut behind `\r` and inside the content, with the next one behind. -/
theorem arrive_eq_whole_pieces :
    let request := [asciiBytes "PUT /a HTTP/1.1\r", asciiBytes "\nContent-Length: 3\r\n\r\nx",
      asciiBytes "yz"]
    let response := [asciiBytes "HTTP/1.1 200 OK\r", asciiBytes "\nContent-Length: 3\r\n\r\nx",
      asciiBytes "yz"]
    (ReceivedRequest.start.receive request.flatten).1.receive (asciiBytes "GET") =
        ((ReceivedRequest.start.receive request.flatten).1, 0) ∧
      ((HttpResponse.start false).addInput response.flatten).1.addInput (asciiBytes "HTTP") =
        (((HttpResponse.start false).addInput response.flatten).1, 0) :=
  ⟨(arrive_eq_whole _ false).1.2 _ (by decide +kernel),
    (arrive_eq_whole _ false).2.2 _ (by decide +kernel)⟩

end PersonalCloud.Http
