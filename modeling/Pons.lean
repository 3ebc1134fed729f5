import Pons.Python
import Pons.Dict
import Pons.Inspect
import Pons.Inspect.Bind
import Pons.Codec
import Pons.Signature
import Pons.EventSignature
import Pons.Event
import Pons.Event.Decode
import Pons.Entities
import Pons.ContractABI
import Pons.ContractABI.FromJson
import Pons.ContractABI.Loaded
import Pons.RpcServer
