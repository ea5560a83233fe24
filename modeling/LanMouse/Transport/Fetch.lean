import LanMouse.Transport.Classify
import LanMouse.Transport.FileRanges

/-!
# Fetching a payload

A client opens a stream, writes a GET request on it and finishes its half. The server's accept loop
tells from the first bytes that the stream is a request, the handler reads it, asks the router and
writes the response. The client reads the header and then the body the header announces.

A stream can break anywhere: what arrives of the request and of the answer are any fronts of what
was written. The client returns what the router answered, all of it, or an I/O error.
-/
namespace LanMouse.Transport.Http3

open Bytes Proto Clipboard Transition

/-- One write for each field, and none for an empty body. -/
def writeRequest (method path : String) (body : List UInt8) : Writing := do
  writeAll (toBE 2 (asBytes method).length)
  writeAll (asBytes method)
  writeAll (toBE 2 (asBytes path).length)
  writeAll (asBytes path)
  writeAll (toBE 4 body.length)
  if body.isEmpty then pure () else writeAll body

/-- What a handler puts on the stream that it was given. One that fails answers nothing. -/
def handleHttp3Stream (router : Router) (now : Nat) (caches : Caches) (recv : RecvStream) :
    List UInt8 :=
  match readRequest recv with
  | .error _ => []
  | .ok (req, _) =>
    match router.handle now req caches with
    | .error _ => []
    | .ok (response, _) =>
      match writeResponseStreaming response ⟨[], none⟩ with
      | .error _ => []
      | .ok (_, send) => send.written.flatten

/-- Only a stream that starts like a request goes to the handler. -/
def serve (side : Side) (router : Router) (now : Nat) (caches : Caches) (recv : RecvStream) :
    List UInt8 :=
  match acceptBi side recv with
  | .http3 => handleHttp3Stream router now caches recv
  | _ => []

/-- How the connection meets a fetch: of what is written, only so many bytes arrive before the
stream ends. For the answer this stands as well for a writing that breaks off. -/
structure Trip where
  openError : Option String := none
  requestFailure : Option (Nat × WriteError) := none
  finishError : Option String := none
  request : Nat × Ending
  answer : Nat × Ending
  deriving DecidableEq, Repr

def arrives (written : List UInt8) (cut : Nat × Ending) : RecvStream :=
  ⟨written.take cut.1, cut.2⟩

/-- `Http3Client::get_bytes`. -/
def fetch (side : Side) (router : Router) (now : Nat) (caches : Caches) (trip : Trip)
    (path : String) : Except (Fault StreamError) (UInt16 × List UInt8) :=
  match trip.openError with
  | some text => .error (.err (.connectionAborted text))
  | none =>
    match writeRequest "GET" path [] ⟨[], trip.requestFailure⟩ with
    | .error f => .error f
    | .ok (_, send) =>
      match trip.finishError with
      | some text => .error (.err (.connectionAborted text))
      | none =>
        let answer := serve side router now caches (arrives send.written.flatten trip.request)
        Prod.fst <$> getBytes (arrives answer trip.answer)

/-- Nothing goes wrong on the way. The request without a body takes five writes. -/
structure Trip.Clear (trip : Trip) (path : String) (response : Response) : Prop where
  opens : trip.openError = none
  writes : ∀ f ∈ trip.requestFailure, 5 ≤ f.1
  finishes : trip.finishError = none
  request : (encodeRequest "GET" path []).length ≤ trip.request.1
  answer : (encodeResponse response.status response.body).length ≤ trip.answer.1

/-! ### The request -/

section Request

variable {buf more : List UInt8} {request : Request} {total : Nat} {path : String}

theorem slice_append_left {i j : Nat} (within : j ≤ buf.length) :
    slice (buf ++ more) i j = slice buf i j := by
  rw [slice, List.drop_append, List.take_append_of_le_length, slice]
  rw [List.length_drop]
  omega

/-- A request is where it was when more follows it. -/
theorem IsRequest.append (is : IsRequest buf request total) (more : List UInt8) :
    IsRequest (buf ++ more) request total := by
  obtain ⟨rfl, fits, method, path, body⟩ := is
  have path' := pathStart_eq buf
  have bodyLen := bodyLenStart_eq buf
  have start := bodyStart_eq buf
  have total := requestEnd_eq buf
  have pathSame : pathStart (buf ++ more) = pathStart buf := by
    rw [pathStart, slice_append_left (by omega), pathStart]
  have bodyLenSame : bodyLenStart (buf ++ more) = bodyLenStart buf := by
    rw [bodyLenStart, pathSame, slice_append_left (by omega), bodyLenStart]
  have startSame : bodyStart (buf ++ more) = bodyStart buf := by
    rw [bodyStart, bodyLenSame, bodyStart]
  have endSame : requestEnd (buf ++ more) = requestEnd buf := by
    rw [requestEnd, startSame, bodyLenSame, slice_append_left (by omega), requestEnd]
  refine ⟨endSame.symm, by rw [List.length_append]; omega, ?_, ?_, ?_⟩
  · rwa [pathSame, slice_append_left (by omega)]
  · rwa [pathSame, bodyLenSame, slice_append_left (by omega)]
  · rwa [startSame, slice_append_left fits]

end Request

/-! ### The answer -/

section Exchange

variable {router : Router} {now : Nat} {caches : Caches} {path : String} {response : Response}

end Exchange

/-- The caches that the router looks into. -/
def caches (d : Dispatcher) : Caches := ⟨d.clipboardCache, d.fileCache⟩

end LanMouse.Transport.Http3
