import DirtieNode.AccessPoint.Balance
import DirtieNode.AccessPoint.JsonBody
import DirtieNode.AccessPoint.Reply
import DirtieNode.AccessPoint.Segments
import DirtieNode.Connect.B64Buffer
import DirtieNode.Connect.Inbound
import DirtieNode.Connect.MqttInit
import DirtieNode.Connect.Payload
import DirtieNode.Flashmem.Bounds
import DirtieNode.Flashmem.Escape
import DirtieNode.Flashmem.Fields
import DirtieNode.Flashmem.Isolation
import DirtieNode.Logger.Rebase
import DirtieNode.Logger.Truncation
import DirtieNode.Main.Boot
import DirtieNode.Main.Button
import DirtieNode.Main.Connections
import DirtieNode.Main.Cycle
import DirtieNode.Main.Logdump
import DirtieNode.Main.PlainRequests
import DirtieNode.Main.Startup
import DirtieNode.Util.Attempts
import DirtieNode.Util.Clock
